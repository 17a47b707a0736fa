/-!
The tokens of node definitions, each with the column where it starts.

A definition stands on one line.  Blanks and tabs between tokens are skipped; any
other character that starts no token, a line end included, stops the reading.
-/

namespace LoxLang

inductive DefinitionToken.Kind where
  | name | colon | comma | lessThan | moreThan | optional
  | ending
  deriving DecidableEq, Repr, Inhabited

namespace DefinitionToken.Kind

def label : Kind → String
  | name => "NAME"
  | colon => "COLON"
  | comma => "COMMA"
  | lessThan => "LESSTHAN"
  | moreThan => "MORETHAN"
  | optional => "OPTIONAL"
  | ending => "$END"

end DefinitionToken.Kind

structure DefinitionToken where
  kind : DefinitionToken.Kind
  text : List Char
  /-- Counted from one. -/
  column : Nat
  deriving DecidableEq, Repr, Inhabited

namespace DefinitionToken

def isNameStart (c : Char) : Bool :=
  c.isAlpha || c == '_'

def isNamePart (c : Char) : Bool :=
  isNameStart c || c.isDigit

def isSkipped (c : Char) : Bool :=
  c == ' ' || c == '\t'

def mark? : Char → Option Kind
  | ':' => some .colon
  | ',' => some .comma
  | '<' => some .lessThan
  | '>' => some .moreThan
  | '?' => some .optional
  | _ => none

/-- The tokens of a text that starts at a column, up to its end or to the first character that
starts none, which is returned with its column. -/
def scan (column : Nat) : List Char → List DefinitionToken × Option (Char × Nat)
  | [] => ([], none)
  | c :: rest =>
      if isSkipped c then scan (column + 1) rest
      else if isNameStart c then
        let tail := rest.takeWhile isNamePart
        let (tokens, stop) := scan (column + 1 + tail.length) (rest.dropWhile isNamePart)
        (⟨.name, c :: tail, column⟩ :: tokens, stop)
      else
        match mark? c with
        | some kind =>
            let (tokens, stop) := scan (column + 1) rest
            (⟨kind, [c], column⟩ :: tokens, stop)
        | none => ([], some (c, column))
termination_by text => text.length
decreasing_by
  · simp
  · have := (List.dropWhile_sublist (l := rest) isNamePart).length_le
    simp; omega
  · simp

end DefinitionToken

end LoxLang

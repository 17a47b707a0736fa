import LoxLang.NodeDefinition.Token

/-!
Node definitions: `Binary : Expr left, Token operator, Expr right`.

A definition is a class name, a colon, and fields with a comma between them; a
field is a type and a name; a type is a name, an argument in angle brackets or
none, and a question mark or none.  A definition that is none of these is blamed
on the first token that may not stand where it does, or on the first character
that starts no token, whichever comes first.
-/

namespace LoxLang

inductive FieldType where
  | plain (name : String) (optional : Bool)
  | applied (name : String) (argument : FieldType) (optional : Bool)
  deriving DecidableEq, Repr, Inhabited

namespace FieldType

def base (name : String) : String :=
  if name = "Object" then "Any" else name

def wrap (optional : Bool) (hint : String) : String :=
  if optional then "Optional[" ++ hint ++ "]" else hint

/-- The annotation that a type is written as; a list is a tuple of any length. -/
def hint : FieldType → String
  | plain name optional => wrap optional (base name)
  | applied name argument optional =>
      wrap optional <|
        if name = "List" then "Tuple[" ++ argument.hint ++ ", ...]"
        else base name ++ "[" ++ argument.hint ++ "]"

end FieldType

structure NodeField where
  name : String
  type : FieldType
  deriving DecidableEq, Repr, Inhabited

structure NodeDefinition where
  name : String
  fields : List NodeField
  deriving DecidableEq, Repr, Inhabited

inductive DefinitionError where
  | character (c : Char) (column : Nat)
  | token (token : DefinitionToken)
  deriving DecidableEq, Repr

namespace NodeDefinition

/-- What was read and the tokens after it, or the tokens from the one to blame on. -/
abbrev Reading (α : Type) (bound : Nat) :=
  Except (List DefinitionToken) (α × { rest : List DefinitionToken // rest.length < bound })

def expect (kind : DefinitionToken.Kind) (tokens : List DefinitionToken) :
    Reading String tokens.length :=
  match tokens with
  | [] => .error []
  | token :: rest =>
      if token.kind = kind then .ok (String.ofList token.text, ⟨rest, Nat.lt_succ_self _⟩)
      else .error (token :: rest)

def readOptional (tokens : List DefinitionToken) :
    Bool × { rest : List DefinitionToken // rest.length ≤ tokens.length } :=
  match tokens with
  | [] => (false, ⟨[], Nat.le_refl _⟩)
  | token :: rest =>
      if token.kind = .optional then (true, ⟨rest, Nat.le_succ _⟩)
      else (false, ⟨token :: rest, Nat.le_refl _⟩)

def readType (tokens : List DefinitionToken) : Reading FieldType tokens.length :=
  match expect .name tokens with
  | .error unread => .error unread
  | .ok (name, ⟨afterName, named⟩) =>
      match expect .lessThan afterName with
      | .error _ =>
          let (optional, ⟨rest, _⟩) := readOptional afterName
          .ok (.plain name optional, ⟨rest, by omega⟩)
      | .ok (_, ⟨inside, opened⟩) =>
          match readType inside with
          | .error unread => .error unread
          | .ok (argument, ⟨afterArgument, argued⟩) =>
              match expect .moreThan afterArgument with
              | .error unread => .error unread
              | .ok (_, ⟨afterClosing, closed⟩) =>
                  let (optional, ⟨rest, _⟩) := readOptional afterClosing
                  .ok (.applied name argument optional, ⟨rest, by omega⟩)
termination_by tokens.length

def readField (tokens : List DefinitionToken) : Reading NodeField tokens.length :=
  match readType tokens with
  | .error unread => .error unread
  | .ok (type, ⟨afterType, typed⟩) =>
      match expect .name afterType with
      | .error unread => .error unread
      | .ok (name, ⟨rest, named⟩) => .ok (⟨name, type⟩, ⟨rest, by omega⟩)

def readFields (tokens : List DefinitionToken) : Except (List DefinitionToken) (List NodeField) :=
  match readField tokens with
  | .error unread => .error unread
  | .ok (field, ⟨[], _⟩) => .ok [field]
  | .ok (field, ⟨token :: rest, _shorter⟩) =>
      if token.kind = .comma then
        match readFields rest with
        | .error unread => .error unread
        | .ok fields => .ok (field :: fields)
      else .error (token :: rest)
termination_by tokens.length
decreasing_by simp at _shorter; omega

def ofTokens (tokens : List DefinitionToken) : Except (List DefinitionToken) NodeDefinition :=
  match expect .name tokens with
  | .error unread => .error unread
  | .ok (name, ⟨afterName, _⟩) =>
      match expect .colon afterName with
      | .error unread => .error unread
      | .ok (_, ⟨rest, _⟩) => (readFields rest).map (⟨name, ·⟩)

/-- The end of a definition is blamed at the start of its last token. -/
def ending (tokens : List DefinitionToken) : DefinitionToken :=
  ⟨.ending, [], (tokens.getLast?.map DefinitionToken.column).getD 1⟩

def ofText (text : String) : Except DefinitionError NodeDefinition :=
  let (tokens, stop) := DefinitionToken.scan 1 text.toList
  match ofTokens tokens, stop with
  | .error (token :: _), _ => .error (.token token)
  | _, some (c, column) => .error (.character c column)
  | .error [], none => .error (.token (ending tokens))
  | .ok definition, none => .ok definition

end NodeDefinition

end LoxLang

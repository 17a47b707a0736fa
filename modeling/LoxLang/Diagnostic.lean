import LoxLang.Token

/-!
Diagnostics and the report that collects them.

A diagnostic says what is wrong and where; its kind tells lexical and syntax
errors, which keep a program from running, from the runtime error that stops it.
-/

namespace LoxLang

structure Diagnostic where
  kind : String
  line : Int
  place : String
  message : String
  deriving DecidableEq, Repr, Inhabited

namespace Diagnostic

def lexicalKind : String := "lexical"
def syntaxKind : String := "syntax"
def runtimeKind : String := "runtime"

def isRuntime (d : Diagnostic) : Bool :=
  d.kind == runtimeKind

def lexical (line : Int) (message : String) : Diagnostic :=
  ⟨lexicalKind, line, "", message⟩

def atToken (token : Token) (message : String) : Diagnostic :=
  let place := if token.kind = .eof then "at end" else "at '" ++ token.lexeme ++ "'"
  ⟨syntaxKind, token.line, place, message⟩

def runtime (line : Int) (message : String) : Diagnostic :=
  ⟨runtimeKind, line, "", message⟩

def text (d : Diagnostic) : String :=
  let line := "[line " ++ toString d.line ++ "]"
  if d.isRuntime then d.message ++ "\n" ++ line
  else
    let place := if d.place = "" then "" else " " ++ d.place
    line ++ " Error" ++ place ++ ": " ++ d.message

end Diagnostic

/-- The diagnostics of a run, and those passed on to a listener since it was attached. -/
structure Report where
  held : List Diagnostic := []
  listens : Bool := false
  heard : List Diagnostic := []
  deriving DecidableEq, Repr, Inhabited

namespace Report

def hadError (r : Report) : Bool :=
  r.held.any fun d => !d.isRuntime

def hadRuntimeError (r : Report) : Bool :=
  r.held.any Diagnostic.isRuntime

def add (r : Report) (d : Diagnostic) : Report :=
  { r with
    held := r.held ++ [d]
    heard := if r.listens then r.heard ++ [d] else r.heard }

def addAll (r : Report) (ds : List Diagnostic) : Report :=
  ds.foldl add r

@[simp] theorem held_add (r : Report) (d : Diagnostic) : (r.add d).held = r.held ++ [d] :=
  rfl

@[simp] theorem held_addAll (r : Report) (ds : List Diagnostic) :
    (r.addAll ds).held = r.held ++ ds := by
  induction ds generalizing r with
  | nil => simp [addAll]
  | cons d rest ih =>
      change ((r.add d).addAll rest).held = r.held ++ d :: rest
      rw [ih, held_add, List.append_assoc, List.singleton_append]

def clear (r : Report) : Report :=
  { r with held := [] }

def heardSince (earlier r : Report) : List Diagnostic :=
  r.heard.drop earlier.heard.length

def exitCode (r : Report) : Nat :=
  if r.hadError then 65 else if r.hadRuntimeError then 70 else 0

end Report

end LoxLang

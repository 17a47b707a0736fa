import LoxLang.Fault

/-!
What a trace records.  Each event has a level, and a run keeps the events up to
the level asked for.
-/

namespace LoxLang

inductive Event where
  | execute (kind : NodeKind)
  | runtimeError (error : RuntimeError)
  | declare (name : String) (value : Value) (frame : Nat)
  | assign (name : String) (value : Value)
  | enterFrame (frame enclosing : Nat)
  | releaseFrame (frame : Nat)
  deriving DecidableEq, Repr

namespace Event

def level : Event → Int
  | execute _ => 1
  | runtimeError _ => 1
  | declare _ _ _ => 2
  | assign _ _ => 2
  | enterFrame _ _ => 3
  | releaseFrame _ => 3

def text : Event → String
  | execute kind => "execute " ++ kind.className
  | runtimeError error =>
      "runtime error on line " ++ toString error.token.line ++ ": " ++ error.message
  | declare name value frame =>
      "declare " ++ name ++ " = " ++ value.text ++ " in frame " ++ toString frame
  | assign name value => "assign " ++ name ++ " = " ++ value.text
  | enterFrame frame enclosing =>
      "enter frame " ++ toString frame ++ " (enclosing " ++ toString enclosing ++ ")"
  | releaseFrame frame => "release frame " ++ toString frame

end Event

end LoxLang

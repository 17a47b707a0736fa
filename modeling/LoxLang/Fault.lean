import LoxLang.Syntax.Tree
import LoxLang.Diagnostic

/-!
What can stop a program.

A runtime error is the program's own fault and becomes a diagnostic.  The other
faults come from trees and scope operations that no source leads to.
-/

namespace LoxLang

inductive RuntimeError.Cause where
  | operandNotNumber
  | operandsNotNumbers
  | operandsNotAlike
  | undefinedVariable
  | unknownUnary
  | unknownBinary
  deriving DecidableEq, Repr, Inhabited

structure RuntimeError where
  cause : RuntimeError.Cause
  token : Token
  deriving DecidableEq, Repr, Inhabited

namespace RuntimeError

def message (error : RuntimeError) : String :=
  let named := "'" ++ error.token.lexeme ++ "'."
  match error.cause with
  | .operandNotNumber => "Operand must be a number."
  | .operandsNotNumbers => "Operands must be numbers."
  | .operandsNotAlike => "Operands must be two numbers or two strings."
  | .undefinedVariable => "Undefined variable " ++ named
  | .unknownUnary => "Unknown unary operator " ++ named
  | .unknownBinary => "Unknown binary operator " ++ named

def diagnostic (error : RuntimeError) : Diagnostic :=
  .runtime error.token.line error.message

end RuntimeError

inductive Activity where
  | print | evaluate | execute
  deriving DecidableEq, Repr, Inhabited

def Activity.verb : Activity → String
  | print => "print"
  | evaluate => "evaluate"
  | execute => "execute"

inductive Fault where
  | runtime (error : RuntimeError)
  | unsupported (activity : Activity) (kind : NodeKind)
  | outOfRange
  | globalRelease
  /-- A walk along enclosing frames goes in circles. -/
  | endless
  deriving DecidableEq, Repr, Inhabited

def Fault.message : Fault → String
  | runtime error => error.message
  | unsupported activity kind =>
      activity.verb ++ ": unexpected node type <class 'lox.ast." ++ kind.className ++ "'>"
  | outOfRange => "list index out of range"
  | globalRelease => "the global frame cannot be released"
  | endless => "the enclosing frames form a circle"

end LoxLang

import LoxLang.Number.Text

/-!
The values of Lox programs: `nil`, booleans, double-precision numbers and strings.
-/

namespace LoxLang

inductive Value where
  | nil
  | boolean (b : Bool)
  | number (x : Float)
  | string (text : String)
  deriving DecidableEq, Repr, Inhabited

namespace Value

def isTruthy : Value → Bool
  | nil => false
  | boolean b => b
  | number _ => true
  | string _ => true

def isNumber : Value → Bool
  | number _ => true
  | _ => false

/--
Equality as programs see it.  Values of different sorts differ, and numbers are
compared as IEEE numbers: `0 == -0`, and what is no number differs from itself.
-/
def equals : Value → Value → Bool
  | nil, nil => true
  | boolean a, boolean b => a == b
  | number x, number y => x == y
  | string s, string t => s == t
  | _, _ => false

def text : Value → String
  | nil => "nil"
  | boolean true => "true"
  | boolean false => "false"
  | number x => String.ofList (Number.format .short x)
  | string s => s

def literalText : Value → String
  | nil => "None"
  | boolean true => "True"
  | boolean false => "False"
  | number x => String.ofList (Number.format .full x)
  | string s => s

end Value

end LoxLang

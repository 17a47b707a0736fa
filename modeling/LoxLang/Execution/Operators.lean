import LoxLang.Fault
import LoxLang.Number.Quotient

/-!
The operators on values.  An operator is known by the kind of its token; any
other kind is an error at that token, and so are operands of the wrong sort.
-/

namespace LoxLang

namespace Token

def applyUnary (operator : Token) (operand : Value) : Except RuntimeError Value :=
  match operator.kind, operand with
  | .minus, .number x => .ok (.number (-x))
  | .minus, _ => .error ⟨.operandNotNumber, operator⟩
  | .bang, value => .ok (.boolean !value.isTruthy)
  | _, _ => .error ⟨.unknownUnary, operator⟩

def arithmetic? : TokenKind → Option (Float → Float → Value)
  | .minus => some fun x y => .number (x - y)
  | .star => some fun x y => .number (x * y)
  | .slash => some fun x y => .number (Number.divide x y)
  | .greater => some fun x y => .boolean (decide (x > y))
  | .greaterEqual => some fun x y => .boolean (decide (x ≥ y))
  | .less => some fun x y => .boolean (decide (x < y))
  | .lessEqual => some fun x y => .boolean (decide (x ≤ y))
  | _ => none

def applyBinary (operator : Token) (left right : Value) : Except RuntimeError Value :=
  match operator.kind with
  | .plus =>
      match left, right with
      | .number x, .number y => .ok (.number (x + y))
      | .string s, .string t => .ok (.string (s ++ t))
      | _, _ => .error ⟨.operandsNotAlike, operator⟩
  | .equalEqual => .ok (.boolean (left.equals right))
  | .bangEqual => .ok (.boolean !left.equals right)
  | kind =>
      match arithmetic? kind with
      | none => .error ⟨.unknownBinary, operator⟩
      | some operation =>
          match left, right with
          | .number x, .number y => .ok (operation x y)
          | _, _ => .error ⟨.operandsNotNumbers, operator⟩

end Token

end LoxLang

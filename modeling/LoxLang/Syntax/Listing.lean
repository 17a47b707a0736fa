import LoxLang.Syntax.Tree

/-!
The listing of an expression tree: every operation in front of its operands, all
in parentheses, so that precedence and grouping show.
-/

namespace LoxLang

namespace Expr

def parenthesize (parts : List String) : String :=
  "(" ++ " ".intercalate parts ++ ")"

/-- The listing of a tree, or the class of the first stray node in it. -/
def listing : Expr → Except NodeKind String
  | assign name value => do
      let value ← value.listing
      return parenthesize ["= " ++ name.lexeme, value]
  | binary left operator right => do
      let left ← left.listing
      let right ← right.listing
      return parenthesize [operator.lexeme, left, right]
  | grouping inner => do
      let inner ← inner.listing
      return parenthesize ["group", inner]
  | literal value => return value.text
  | unary operator right => do
      let right ← right.listing
      return parenthesize [operator.lexeme, right]
  | reference name => return name.lexeme
  | stray kind => throw kind

end Expr

end LoxLang

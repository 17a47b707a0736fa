import LoxLang.Token

/-!
Syntax trees: expressions and statements.

A tree that was put together by hand can hold a node where it does not belong, a
statement as an operand or a bare base class.  Nothing but its class is ever
looked at, so such a node is `stray` and keeps only that.
-/

namespace LoxLang

/-- The classes of syntax nodes, the two base classes included. -/
inductive NodeKind where
  | assign | binary | grouping | literal | unary | reference
  | block | expressionStmt | printStmt | varDecl
  | expr | stmt
  deriving DecidableEq, Repr, Inhabited

namespace NodeKind

def className : NodeKind → String
  | assign => "Assign"
  | binary => "Binary"
  | grouping => "Grouping"
  | literal => "Literal"
  | unary => "Unary"
  | reference => "Variable"
  | block => "Block"
  | expressionStmt => "ExpressionStmt"
  | printStmt => "PrintStmt"
  | varDecl => "VarDecl"
  | expr => "Expr"
  | stmt => "Stmt"

def all : List NodeKind :=
  [assign, binary, grouping, literal, unary, reference, block, expressionStmt, printStmt, varDecl,
    expr, stmt]

def ofClassName? (name : String) : Option NodeKind :=
  all.find? fun kind => kind.className == name

end NodeKind

inductive Expr where
  | assign (name : Token) (value : Expr)
  | binary (left : Expr) (operator : Token) (right : Expr)
  | grouping (inner : Expr)
  | literal (value : Value)
  | unary (operator : Token) (right : Expr)
  | reference (name : Token)
  | stray (kind : NodeKind)
  deriving DecidableEq, Repr, Inhabited

inductive Stmt where
  | block (body : List Stmt)
  | expression (value : Expr)
  | print (value : Expr)
  | declare (name : Token) (initial : Option Expr)
  | stray (kind : NodeKind)
  deriving Repr, Inhabited

def Stmt.kind : Stmt → NodeKind
  | block _ => .block
  | expression _ => .expressionStmt
  | print _ => .printStmt
  | declare _ _ => .varDecl
  | stray kind => kind

end LoxLang

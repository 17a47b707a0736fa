import LoxLang.Syntax.Tree

/-!
# Trees with other tokens

Two trees are alike along a relation of tokens when they have the same nodes and the
tokens in the same places are related.  The relations of interest keep everything of
a token but its line.
-/

namespace LoxLang

structure Token.SameButLine (first second : Token) : Prop where
  kind : second.kind = first.kind
  lexeme : second.lexeme = first.lexeme
  literal : second.literal = first.literal

theorem Token.SameButLine.refl (token : Token) : token.SameButLine token :=
  ⟨rfl, rfl, rfl⟩

theorem Token.SameButLine.of_eq {token token' : Token} (h : token = token') :
    token.SameButLine token' :=
  h ▸ .refl token

variable {R : Token → Token → Prop}

inductive Expr.Alike (R : Token → Token → Prop) : Expr → Expr → Prop
  | assign {name name' value value'} :
      R name name' → Alike R value value' → Alike R (.assign name value) (.assign name' value')
  | binary {left left' operator operator' right right'} :
      Alike R left left' → R operator operator' → Alike R right right' →
      Alike R (.binary left operator right) (.binary left' operator' right')
  | grouping {inner inner'} :
      Alike R inner inner' → Alike R (.grouping inner) (.grouping inner')
  | literal {value} : Alike R (.literal value) (.literal value)
  | unary {operator operator' right right'} :
      R operator operator' → Alike R right right' →
      Alike R (.unary operator right) (.unary operator' right')
  | reference {name name'} : R name name' → Alike R (.reference name) (.reference name')
  | stray {kind} : Alike R (.stray kind) (.stray kind)

mutual

inductive Stmt.Alike (R : Token → Token → Prop) : Stmt → Stmt → Prop
  | block {body body'} : Stmt.AllAlike R body body' → Stmt.Alike R (.block body) (.block body')
  | expression {value value'} :
      Expr.Alike R value value' → Stmt.Alike R (.expression value) (.expression value')
  | print {value value'} : Expr.Alike R value value' → Stmt.Alike R (.print value) (.print value')
  | declare {name name'} : R name name' → Stmt.Alike R (.declare name none) (.declare name' none)
  | declareWith {name name' initial initial'} :
      R name name' → Expr.Alike R initial initial' →
      Stmt.Alike R (.declare name (some initial)) (.declare name' (some initial'))
  | stray {kind} : Stmt.Alike R (.stray kind) (.stray kind)

inductive Stmt.AllAlike (R : Token → Token → Prop) : List Stmt → List Stmt → Prop
  | nil : Stmt.AllAlike R [] []
  | cons {first first' rest rest'} :
      Stmt.Alike R first first' → Stmt.AllAlike R rest rest' →
      Stmt.AllAlike R (first :: rest) (first' :: rest')

end

theorem Expr.Alike.refl (hrefl : ∀ token, R token token) (expr : Expr) :
    Expr.Alike R expr expr := by
  induction expr with
  | assign name value ih => exact .assign (hrefl name) ih
  | binary left operator right ihLeft ihRight => exact .binary ihLeft (hrefl operator) ihRight
  | grouping inner ih => exact .grouping ih
  | literal value => exact .literal
  | unary operator right ih => exact .unary (hrefl operator) ih
  | reference name => exact .reference (hrefl name)
  | stray kind => exact .stray

mutual

theorem Stmt.Alike.refl (hrefl : ∀ token, R token token) : (stmt : Stmt) → Stmt.Alike R stmt stmt
  | .block body => .block (Stmt.AllAlike.refl hrefl body)
  | .expression value => .expression (.refl hrefl value)
  | .print value => .print (.refl hrefl value)
  | .declare name none => .declare (hrefl name)
  | .declare name (some initial) => .declareWith (hrefl name) (.refl hrefl initial)
  | .stray _ => .stray

theorem Stmt.AllAlike.refl (hrefl : ∀ token, R token token) :
    (stmts : List Stmt) → Stmt.AllAlike R stmts stmts
  | [] => .nil
  | first :: rest => .cons (Stmt.Alike.refl hrefl first) (Stmt.AllAlike.refl hrefl rest)

end

theorem Expr.Alike.eq {expr expr' : Expr} (h : Expr.Alike (· = ·) expr expr') : expr = expr' := by
  induction h with
  | assign hname _ ih => rw [hname, ih]
  | binary _ hoperator _ ihLeft ihRight => rw [hoperator, ihLeft, ihRight]
  | grouping _ ih => rw [ih]
  | literal => rfl
  | unary hoperator _ ih => rw [hoperator, ih]
  | reference hname => rw [hname]
  | stray => rfl

mutual

theorem Stmt.Alike.eq {stmt stmt' : Stmt} : Stmt.Alike (· = ·) stmt stmt' → stmt = stmt'
  | .block hbody => by rw [Stmt.AllAlike.eq hbody]
  | .expression hvalue => by rw [hvalue.eq]
  | .print hvalue => by rw [hvalue.eq]
  | .declare hname => by rw [hname]
  | .declareWith hname hinitial => by rw [hname, hinitial.eq]
  | .stray => rfl

theorem Stmt.AllAlike.eq {stmts stmts' : List Stmt} :
    Stmt.AllAlike (· = ·) stmts stmts' → stmts = stmts'
  | .nil => rfl
  | .cons hfirst hrest => by rw [hfirst.eq, Stmt.AllAlike.eq hrest]

end

theorem Stmt.AllAlike.append {first first' second second' : List Stmt}
    (h : Stmt.AllAlike R first first') (h' : Stmt.AllAlike R second second') :
    Stmt.AllAlike R (first ++ second) (first' ++ second') := by
  match h with
  | .nil => exact h'
  | .cons hfirst hrest => exact .cons hfirst (hrest.append h')

end LoxLang

import LoxLang.Execution.Machine

/-!
# Lexical scoping

A reference semantics without frames and indices.  A program runs on a stack of
maps from names to values that is passed on from rule to rule.  A name stands for
its value in the topmost map that binds it.
-/

namespace LoxLang.Scoping

/-- The maps in force at a point of a program, a stack that is never empty. -/
structure Scopes where
  top : Bindings
  below : List Bindings

namespace Scopes

def under (scopes : Scopes) (inner : Bindings) : Scopes :=
  ⟨inner, scopes.top :: scopes.below⟩

def lookup (name : String) : (top : Bindings) → (below : List Bindings) → Option Value
  | top, below =>
      match top.get? name, below with
      | some value, _ => some value
      | none, [] => none
      | none, next :: more => lookup name next more

def update (name : String) (value : Value) :
    (top : Bindings) → (below : List Bindings) → Option Scopes
  | top, below =>
      match top.get? name, below with
      | some _, below => some ⟨top.insert name value, below⟩
      | none, [] => none
      | none, next :: more => (update name value next more).map (·.under top)

def get? (scopes : Scopes) (name : String) : Option Value :=
  lookup name scopes.top scopes.below

def assign? (scopes : Scopes) (name : String) (value : Value) : Option Scopes :=
  update name value scopes.top scopes.below

def define (scopes : Scopes) (name : String) (value : Value) : Scopes :=
  { scopes with top := scopes.top.insert name value }

end Scopes

def undefined (name : Token) : RuntimeError :=
  ⟨.undefinedVariable, name⟩

/-- The expression takes the first stack to the second and ends with a value or an error. -/
inductive Evaluates : Scopes → Expr → Scopes → Except RuntimeError Value → Prop
  | literal {scopes value} : Evaluates scopes (.literal value) scopes (.ok value)
  | grouping {scopes inner scopes' result} :
      Evaluates scopes inner scopes' result → Evaluates scopes (.grouping inner) scopes' result
  | unary {scopes operator right scopes' operand} :
      Evaluates scopes right scopes' (.ok operand) →
      Evaluates scopes (.unary operator right) scopes' (operator.applyUnary operand)
  | unaryStops {scopes operator right scopes' error} :
      Evaluates scopes right scopes' (.error error) →
      Evaluates scopes (.unary operator right) scopes' (.error error)
  | binary {scopes left operator right scopes₁ scopes₂ first second} :
      Evaluates scopes left scopes₁ (.ok first) →
      Evaluates scopes₁ right scopes₂ (.ok second) →
      Evaluates scopes (.binary left operator right) scopes₂ (operator.applyBinary first second)
  | leftStops {scopes left operator right scopes₁ error} :
      Evaluates scopes left scopes₁ (.error error) →
      Evaluates scopes (.binary left operator right) scopes₁ (.error error)
  | rightStops {scopes left operator right scopes₁ scopes₂ first error} :
      Evaluates scopes left scopes₁ (.ok first) →
      Evaluates scopes₁ right scopes₂ (.error error) →
      Evaluates scopes (.binary left operator right) scopes₂ (.error error)
  | reference {scopes name value} :
      scopes.get? name.lexeme = some value → Evaluates scopes (.reference name) scopes (.ok value)
  | unbound {scopes name} :
      scopes.get? name.lexeme = none →
      Evaluates scopes (.reference name) scopes (.error (undefined name))
  | assign {scopes name right scopes₁ scopes₂ value} :
      Evaluates scopes right scopes₁ (.ok value) →
      scopes₁.assign? name.lexeme value = some scopes₂ →
      Evaluates scopes (.assign name right) scopes₂ (.ok value)
  | assignStops {scopes name right scopes₁ error} :
      Evaluates scopes right scopes₁ (.error error) →
      Evaluates scopes (.assign name right) scopes₁ (.error error)
  | assignUnbound {scopes name right scopes₁ value} :
      Evaluates scopes right scopes₁ (.ok value) →
      scopes₁.assign? name.lexeme value = none →
      Evaluates scopes (.assign name right) scopes₁ (.error (undefined name))

mutual

/-- The statement takes the first stack to the second, prints lines and may end with an error. -/
inductive Performs : Scopes → Stmt → Scopes → List String → Option RuntimeError → Prop
  | expression {scopes value scopes' result} :
      Evaluates scopes value scopes' (.ok result) →
      Performs scopes (.expression value) scopes' [] none
  | expressionStops {scopes value scopes' error} :
      Evaluates scopes value scopes' (.error error) →
      Performs scopes (.expression value) scopes' [] (some error)
  | print {scopes value scopes' result} :
      Evaluates scopes value scopes' (.ok result) →
      Performs scopes (.print value) scopes' [result.text] none
  | printStops {scopes value scopes' error} :
      Evaluates scopes value scopes' (.error error) →
      Performs scopes (.print value) scopes' [] (some error)
  | declare {scopes name} :
      Performs scopes (.declare name none) (scopes.define name.lexeme .nil) [] none
  | declareWith {scopes name initial scopes' value} :
      Evaluates scopes initial scopes' (.ok value) →
      Performs scopes (.declare name (some initial)) (scopes'.define name.lexeme value) [] none
  | initialStops {scopes name initial scopes' error} :
      Evaluates scopes initial scopes' (.error error) →
      Performs scopes (.declare name (some initial)) scopes' [] (some error)
  /-- The map of a block is dropped however the block ends. -/
  | block {scopes body scopes' inner lines error} :
      Executes (scopes.under {}) body (scopes'.under inner) lines error →
      Performs scopes (.block body) scopes' lines error

/-- The statements, one after the other, up to the first that ends with an error. -/
inductive Executes : Scopes → List Stmt → Scopes → List String → Option RuntimeError → Prop
  | done {scopes} : Executes scopes [] scopes [] none
  | next {scopes first rest scopes₁ scopes₂ lines lines' error} :
      Performs scopes first scopes₁ lines none →
      Executes scopes₁ rest scopes₂ lines' error →
      Executes scopes (first :: rest) scopes₂ (lines ++ lines') error
  | stops {scopes first rest scopes₁ lines error} :
      Performs scopes first scopes₁ lines (some error) →
      Executes scopes (first :: rest) scopes₁ lines (some error)

end

end LoxLang.Scoping

namespace LoxLang

/-! ## Proper trees -/

/-- Every node of the expression is one of the known classes of expressions. -/
def Expr.Proper : Expr → Prop
  | assign _ value => value.Proper
  | binary left _ right => left.Proper ∧ right.Proper
  | grouping inner => inner.Proper
  | literal _ => True
  | unary _ right => right.Proper
  | reference _ => True
  | stray _ => False

mutual

def Stmt.Proper : Stmt → Prop
  | .block body => Stmt.AllProper body
  | .expression value => value.Proper
  | .print value => value.Proper
  | .declare _ none => True
  | .declare _ (some initial) => initial.Proper
  | .stray _ => False

def Stmt.AllProper : List Stmt → Prop
  | [] => True
  | first :: rest => first.Proper ∧ Stmt.AllProper rest

end

end LoxLang

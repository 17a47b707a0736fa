import LoxLang.Proofs.Lockstep.Trees
import LoxLang.Proofs.Scoping.Semantics

/-!
# Runs of alike programs

A run looks at the kind of an operator and at the text of a name, and a runtime error
keeps the token that it is about.  So programs that are alike run alike, and stop for
the same cause at related tokens.
-/

namespace LoxLang

variable {R : Token → Token → Prop}

structure RuntimeError.Alike (R : Token → Token → Prop) (first second : RuntimeError) : Prop where
  cause : second.cause = first.cause
  token : R first.token second.token

inductive ResultAlike (R : Token → Token → Prop) :
    Except RuntimeError Value → Except RuntimeError Value → Prop
  | ok {value} : ResultAlike R (.ok value) (.ok value)
  | error {error error'} : error.Alike R error' → ResultAlike R (.error error) (.error error')

namespace Token

variable {operator operator' : Token}

theorem applyUnary_alike (same : operator.SameButLine operator') (h : R operator operator')
    (operand : Value) :
    ResultAlike R (operator.applyUnary operand) (operator'.applyUnary operand) := by
  unfold applyUnary
  rw [same.kind]
  split <;> first | exact .ok | exact .error ⟨rfl, h⟩

theorem applyBinary_alike (same : operator.SameButLine operator') (h : R operator operator')
    (left right : Value) :
    ResultAlike R (operator.applyBinary left right) (operator'.applyBinary left right) := by
  unfold applyBinary
  rw [same.kind]
  split
  · split <;> first | exact .ok | exact .error ⟨rfl, h⟩
  · exact .ok
  · exact .ok
  · split
    · exact .error ⟨rfl, h⟩
    · split <;> first | exact .ok | exact .error ⟨rfl, h⟩

end Token

namespace Scoping

theorem Evaluates.alike (same : ∀ {token token'}, R token token' → token.SameButLine token')
    {scopes scopes' : Scopes} {expr expr' : Expr} {result : Except RuntimeError Value}
    (h : Evaluates scopes expr scopes' result) (halike : Expr.Alike R expr expr') :
    ∃ result', ResultAlike R result result' ∧ Evaluates scopes expr' scopes' result' := by
  induction h generalizing expr' with
  | literal =>
      cases halike with
      | literal => exact ⟨_, .ok, .literal⟩
  | grouping _ ih =>
      cases halike with
      | grouping hinner =>
          obtain ⟨result', hresult, hrun⟩ := ih hinner
          exact ⟨result', hresult, .grouping hrun⟩
  | unary _ ih =>
      cases halike with
      | unary hoperator hright =>
          obtain ⟨_, hresult, hrun⟩ := ih hright
          cases hresult with
          | ok => exact ⟨_, Token.applyUnary_alike (same hoperator) hoperator _, .unary hrun⟩
  | unaryStops _ ih =>
      cases halike with
      | unary hoperator hright =>
          obtain ⟨_, hresult, hrun⟩ := ih hright
          cases hresult with
          | error herror => exact ⟨_, .error herror, .unaryStops hrun⟩
  | binary _ _ ihLeft ihRight =>
      cases halike with
      | binary hleft hoperator hright =>
          obtain ⟨_, hfirst, hrun⟩ := ihLeft hleft
          obtain ⟨_, hsecond, hrun'⟩ := ihRight hright
          cases hfirst with
          | ok =>
              cases hsecond with
              | ok =>
                  exact ⟨_, Token.applyBinary_alike (same hoperator) hoperator _ _,
                    .binary hrun hrun'⟩
  | leftStops _ ih =>
      cases halike with
      | binary hleft hoperator hright =>
          obtain ⟨_, hresult, hrun⟩ := ih hleft
          cases hresult with
          | error herror => exact ⟨_, .error herror, .leftStops hrun⟩
  | rightStops _ _ ihLeft ihRight =>
      cases halike with
      | binary hleft hoperator hright =>
          obtain ⟨_, hfirst, hrun⟩ := ihLeft hleft
          obtain ⟨_, hsecond, hrun'⟩ := ihRight hright
          cases hfirst with
          | ok =>
              cases hsecond with
              | error herror => exact ⟨_, .error herror, .rightStops hrun hrun'⟩
  | reference hget =>
      cases halike with
      | reference hname =>
          rw [← (same hname).lexeme] at hget
          exact ⟨_, .ok, .reference hget⟩
  | unbound hget =>
      cases halike with
      | reference hname =>
          rw [← (same hname).lexeme] at hget
          refine ⟨_, ?_, .unbound hget⟩
          exact .error ⟨rfl, hname⟩
  | assign _ hassign ih =>
      cases halike with
      | assign hname hright =>
          obtain ⟨_, hresult, hrun⟩ := ih hright
          rw [← (same hname).lexeme] at hassign
          cases hresult with
          | ok => exact ⟨_, .ok, .assign hrun hassign⟩
  | assignStops _ ih =>
      cases halike with
      | assign hname hright =>
          obtain ⟨_, hresult, hrun⟩ := ih hright
          cases hresult with
          | error herror => exact ⟨_, .error herror, .assignStops hrun⟩
  | assignUnbound _ hassign ih =>
      cases halike with
      | assign hname hright =>
          obtain ⟨_, hresult, hrun⟩ := ih hright
          rw [← (same hname).lexeme] at hassign
          cases hresult with
          | ok =>
              refine ⟨_, ?_, .assignUnbound hrun hassign⟩
              exact .error ⟨rfl, hname⟩

mutual

theorem Performs.alike (same : ∀ {token token'}, R token token' → token.SameButLine token')
    {scopes scopes' : Scopes} {stmt stmt' : Stmt} {lines : List String}
    {error : Option RuntimeError} (h : Performs scopes stmt scopes' lines error)
    (halike : Stmt.Alike R stmt stmt') :
    ∃ error', Option.Rel (RuntimeError.Alike R) error error' ∧
      Performs scopes stmt' scopes' lines error' := by
  cases halike with
  | block hbody =>
      cases h with
      | block hrun =>
          obtain ⟨error', herror, hrun'⟩ := Executes.alike same hrun hbody
          exact ⟨error', herror, .block hrun'⟩
  | expression hvalue =>
      cases h with
      | expression hrun =>
          obtain ⟨_, hresult, hrun'⟩ := hrun.alike same hvalue
          cases hresult with
          | ok => exact ⟨_, .none, .expression hrun'⟩
      | expressionStops hrun =>
          obtain ⟨_, hresult, hrun'⟩ := hrun.alike same hvalue
          cases hresult with
          | error herror => exact ⟨_, .some herror, .expressionStops hrun'⟩
  | print hvalue =>
      cases h with
      | print hrun =>
          obtain ⟨_, hresult, hrun'⟩ := hrun.alike same hvalue
          cases hresult with
          | ok => exact ⟨_, .none, .print hrun'⟩
      | printStops hrun =>
          obtain ⟨_, hresult, hrun'⟩ := hrun.alike same hvalue
          cases hresult with
          | error herror => exact ⟨_, .some herror, .printStops hrun'⟩
  | declare hname =>
      cases h with
      | declare =>
          rw [← (same hname).lexeme]
          exact ⟨_, .none, .declare⟩
  | declareWith hname hinitial =>
      cases h with
      | declareWith hrun =>
          obtain ⟨_, hresult, hrun'⟩ := hrun.alike same hinitial
          rw [← (same hname).lexeme]
          cases hresult with
          | ok => exact ⟨_, .none, .declareWith hrun'⟩
      | initialStops hrun =>
          obtain ⟨_, hresult, hrun'⟩ := hrun.alike same hinitial
          cases hresult with
          | error herror => exact ⟨_, .some herror, .initialStops hrun'⟩
  | stray => cases h

theorem Executes.alike (same : ∀ {token token'}, R token token' → token.SameButLine token')
    {scopes scopes' : Scopes} {stmts stmts' : List Stmt} {lines : List String}
    {error : Option RuntimeError} (h : Executes scopes stmts scopes' lines error)
    (halike : Stmt.AllAlike R stmts stmts') :
    ∃ error', Option.Rel (RuntimeError.Alike R) error error' ∧
      Executes scopes stmts' scopes' lines error' := by
  cases halike with
  | nil =>
      cases h with
      | done => exact ⟨_, .none, .done⟩
  | cons hfirst hrest =>
      cases h with
      | next hrun hruns =>
          obtain ⟨_, hnone, hrun'⟩ := Performs.alike same hrun hfirst
          obtain ⟨error', herror, hruns'⟩ := Executes.alike same hruns hrest
          cases hnone with
          | none => exact ⟨error', herror, .next hrun' hruns'⟩
      | stops hrun =>
          obtain ⟨_, hsome, hrun'⟩ := Performs.alike same hrun hfirst
          cases hsome with
          | some herror => exact ⟨_, .some herror, .stops hrun'⟩

end

/-! ## One program after another -/

theorem Executes.append {scopes scopes₁ scopes₂ : Scopes} {first second : List Stmt}
    {lines lines' : List String} {error : Option RuntimeError}
    (h : Executes scopes first scopes₁ lines none)
    (h' : Executes scopes₁ second scopes₂ lines' error) :
    Executes scopes (first ++ second) scopes₂ (lines ++ lines') error := by
  induction first generalizing scopes lines with
  | nil =>
      cases h with
      | done => exact h'
  | cons stmt rest ih =>
      cases h with
      | next hstmt hrest =>
          rw [List.append_assoc]
          exact .next hstmt (ih hrest)

theorem Executes.append_of_stops {scopes scopes' : Scopes} {first : List Stmt}
    {lines : List String} {error : RuntimeError}
    (h : Executes scopes first scopes' lines (some error)) (second : List Stmt) :
    Executes scopes (first ++ second) scopes' lines (some error) := by
  induction first generalizing scopes lines with
  | nil => cases h
  | cons stmt rest ih =>
      cases h with
      | next hstmt hrest => exact .next hstmt (ih hrest)
      | stops hstmt => exact .stops hstmt

end Scoping

end LoxLang

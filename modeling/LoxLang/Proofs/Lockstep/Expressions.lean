import Mathlib.Data.List.Forall2
import LoxLang.Proofs.Lockstep.Trees
import LoxLang.Proofs.Syntax.Expressions

/-!
# Reading two texts in lockstep

The rules look at one token at a time, and at nothing of it but its kind.  So on two
texts that go along with each other they do the same, as long as no rule goes on
behind the point up to which the texts are related.  For expressions that is the next
semicolon, which no rule for expressions reads.
-/

namespace LoxLang

inductive Heads (R : Token → Token → Prop) : List Token → List Token → Prop
  | nil : Heads R [] []
  | cons {token token' rest rest'} : R token token' → Heads R (token :: rest) (token' :: rest')

/-- Texts related by `S` go along with each other up to a semicolon, and by `T` behind it. -/
structure Lockstep (R : Token → Token → Prop) (S T : List Token → List Token → Prop) : Prop where
  same : ∀ {token token'}, R token token' → token.SameButLine token'
  heads : ∀ {tokens tokens'}, S tokens tokens' → Heads R tokens tokens'
  tail : ∀ {token token' rest rest'}, S (token :: rest) (token' :: rest') →
    token.kind ≠ .semicolon → S rest rest'
  behind : ∀ {token token' rest rest'}, S (token :: rest) (token' :: rest') →
    token.kind = .semicolon → T rest rest'

def SyntaxError.Alike (S : List Token → List Token → Prop) (first second : SyntaxError) : Prop :=
  second.cause = first.cause ∧ S first.unread second.unread

namespace Reply

variable {α β : Type} {m m' n n' : Nat} {V : α → α → Prop} {W : β → β → Prop}
  {S T U : List Token → List Token → Prop}

/-- Related nodes with the texts behind them related by `T`, or refusals at texts related by `S`. -/
def Alike (V : α → α → Prop) (T S : List Token → List Token → Prop) :
    Reply α n → Reply α n' → Prop
  | accepted value rest errors _, accepted value' rest' errors' _ =>
      V value value' ∧ T rest rest' ∧ List.Forall₂ (SyntaxError.Alike S) errors errors'
  | refused rest errors _, refused rest' errors' _ =>
      S rest rest' ∧ List.Forall₂ (SyntaxError.Alike S) errors errors'
  | _, _ => False

theorem alike_done {value value' : α} {rest rest' : List Token} {errors errors' : List SyntaxError}
    (hvalue : V value value') (hrest : T rest rest')
    (herrors : List.Forall₂ (SyntaxError.Alike S) errors errors') :
    (done value rest errors).Alike V T S (done value' rest' errors') :=
  ⟨hvalue, hrest, herrors⟩

theorem alike_blame {cause : SyntaxError.Cause} {tokens tokens' : List Token}
    (h : S tokens tokens') :
    (blame cause tokens : Reply α tokens.length).Alike V T S (blame cause tokens') :=
  ⟨h, .cons ⟨rfl, h⟩ .nil⟩

theorem Alike.widen {reply : Reply α m} {reply' : Reply α m'} (alike : reply.Alike V T S reply')
    (h : m ≤ n) (h' : m' ≤ n') : (reply.widen h).Alike V T S (reply'.widen h') := by
  cases reply <;> cases reply' <;> exact alike

theorem Alike.loosen {reply : Reply α n} {reply' : Reply α n'}
    (alike : reply.Alike V T S reply') : reply.loosen.Alike V T S reply'.loosen :=
  alike.widen _ _

theorem Alike.after {reply : Reply α n} {reply' : Reply α n'}
    {earlier earlier' : List SyntaxError} (alike : reply.Alike V T S reply')
    (hearlier : List.Forall₂ (SyntaxError.Alike S) earlier earlier') :
    (reply.after earlier).Alike V T S (reply'.after earlier') := by
  cases reply with
  | accepted value rest errors shorter =>
      cases reply' with
      | accepted value' rest' errors' shorter' =>
          obtain ⟨hvalue, hrest, herrors⟩ := alike
          exact ⟨hvalue, hrest, List.rel_append hearlier herrors⟩
      | refused => exact alike
  | refused rest errors notLonger =>
      cases reply' with
      | accepted => exact alike
      | refused rest' errors' notLonger' =>
          obtain ⟨hrest, herrors⟩ := alike
          exact ⟨hrest, List.rel_append hearlier herrors⟩

theorem Alike.map {reply : Reply α n} {reply' : Reply α n'} {f f' : α → β}
    (alike : reply.Alike V T S reply')
    (hf : ∀ value value', V value value' → W (f value) (f' value')) :
    (reply.map f).Alike W T S (reply'.map f') := by
  cases reply with
  | accepted value rest errors shorter =>
      cases reply' with
      | accepted value' rest' errors' shorter' =>
          obtain ⟨hvalue, hrest, herrors⟩ := alike
          exact ⟨hf _ _ hvalue, hrest, herrors⟩
      | refused => exact alike
  | refused rest errors notLonger =>
      cases reply' with
      | accepted => exact alike
      | refused rest' errors' notLonger' => exact alike

theorem Alike.andThen {reply : Reply α n} {reply' : Reply α n'}
    {next : (value : α) → (rest : List Token) → rest.length < n → Reply β (rest.length + 1)}
    {next' : (value : α) → (rest : List Token) → rest.length < n' → Reply β (rest.length + 1)}
    (alike : reply.Alike V U S reply')
    (hnext : ∀ value value' rest rest' shorter shorter', V value value' → U rest rest' →
      (next value rest shorter).Alike W T S (next' value' rest' shorter')) :
    (reply.andThen next).Alike W T S (reply'.andThen next') := by
  cases reply with
  | accepted value rest errors shorter =>
      cases reply' with
      | accepted value' rest' errors' shorter' =>
          obtain ⟨hvalue, hrest, herrors⟩ := alike
          have hthen := hnext value value' rest rest' shorter shorter' hvalue hrest
          exact (hthen.widen shorter shorter').after herrors
      | refused => exact alike.elim
  | refused rest errors notLonger =>
      cases reply' with
      | accepted => exact alike.elim
      | refused rest' errors' notLonger' => exact alike

theorem alike_expect {R : Token → Token → Prop} {kind : TokenKind} {cause : SyntaxError.Cause}
    {tokens tokens' : List Token} (h : S tokens tokens') (heads : Heads R tokens tokens')
    (same : ∀ {token token'}, R token token' → token.SameButLine token')
    (hrest : ∀ {token token' rest rest'}, S (token :: rest) (token' :: rest') →
      token.kind = kind → T rest rest') :
    (expect kind cause tokens).Alike R T S (expect kind cause tokens') := by
  cases heads with
  | nil => exact alike_blame h
  | @cons token token' rest rest' htoken =>
      simp only [expect, (same htoken).kind]
      split
      next hkind => exact alike_done htoken (hrest h hkind) .nil
      next => exact alike_blame h

end Reply

open Reply

namespace Expr

/-! ## Rules for expressions -/

section

variable {R : Token → Token → Prop} {S T : List Token → List Token → Prop}

theorem operand?_alike {token token' : Token} (htoken : R token token')
    (same : token.SameButLine token') :
    (token.operand? = none ∧ token'.operand? = none) ∨
      ∃ operand operand', token.operand? = some operand ∧ token'.operand? = some operand' ∧
        Alike R operand operand' ∧ token.kind ≠ .semicolon := by
  unfold Token.operand?
  rw [same.kind, same.literal]
  split
  next h => exact .inr ⟨_, _, rfl, rfl, .literal, by simp [h]⟩
  next h => exact .inr ⟨_, _, rfl, rfl, .literal, by simp [h]⟩
  next h => exact .inr ⟨_, _, rfl, rfl, .literal, by simp [h]⟩
  next h => exact .inr ⟨_, _, rfl, rfl, .literal, by simp [h]⟩
  next h => exact .inr ⟨_, _, rfl, rfl, .literal, by simp [h]⟩
  next h => exact .inr ⟨_, _, rfl, rfl, .reference htoken, by simp [h]⟩
  next => exact .inl ⟨rfl, rfl⟩

theorem assignTo_alike {target target' value value' : Expr} {equals equals' : List Token}
    (htarget : Alike R target target') (hvalue : Alike R value value')
    (hequals : S equals equals') :
    Alike R (target.assignTo value equals).1 (target'.assignTo value' equals').1 ∧
      List.Forall₂ (SyntaxError.Alike S) (target.assignTo value equals).2
        (target'.assignTo value' equals').2 := by
  have herrors : List.Forall₂ (SyntaxError.Alike S) [⟨.assignmentTarget, equals⟩]
      [⟨.assignmentTarget, equals'⟩] := .cons ⟨rfl, hequals⟩ .nil
  cases htarget with
  | reference hname => exact ⟨.assign hname hvalue, .nil⟩
  | assign hname hright => exact ⟨.assign hname hright, herrors⟩
  | binary hleft hoperator hright => exact ⟨.binary hleft hoperator hright, herrors⟩
  | grouping hinner => exact ⟨.grouping hinner, herrors⟩
  | literal => exact ⟨.literal, herrors⟩
  | unary hoperator hright => exact ⟨.unary hoperator hright, herrors⟩
  | stray => exact ⟨.stray, herrors⟩

theorem readOperand_of_tighter {tier tighter : Tier} (h : tier.tighter? = some tighter)
    (tokens : List Token) : readOperand tier tokens = readChain tighter tokens := by
  rw [readOperand]
  split
  next tighter' h' =>
    obtain rfl := Option.some.inj (h.symm.trans h')
    rfl
  next h' => rw [h] at h'; cases h'

theorem readOperand_of_tightest {tier : Tier} (h : tier.tighter? = none) (tokens : List Token) :
    readOperand tier tokens = readUnary tokens := by
  rw [readOperand]
  split
  next h' => rw [h] at h'; cases h'
  next => rfl

theorem binds_ne_semicolon {tier : Tier} {kind : TokenKind} (h : tier.binds kind = true) :
    kind ≠ .semicolon := by
  rintro rfl
  cases tier <;> cases h

theorem isUnaryOperator_ne_semicolon {kind : TokenKind} (h : isUnaryOperator kind = true) :
    kind ≠ .semicolon := by
  rintro rfl
  cases h

mutual

theorem read_alike (lockstep : Lockstep R S T) {tokens tokens' : List Token}
    (h : S tokens tokens') :
    (read tokens).Alike (Alike R) S S (read tokens') := by
  rw [read, read]
  apply (readChain_alike lockstep .equality h).andThen
  intro target target' middle middle' shorter shorter' htarget hmiddle
  cases lockstep.heads hmiddle with
  | nil => exact alike_done htarget hmiddle .nil
  | @cons equals equals' rest rest' hequals =>
      simp only [(lockstep.same hequals).kind]
      split
      next hkind =>
        have hrest := lockstep.tail hmiddle (by simp [hkind])
        refine Alike.loosen (Alike.loosen ?_)
        refine (read_alike lockstep hrest).andThen fun value value' _ _ _ _ hvalue hafter => ?_
        have hassign := assignTo_alike htarget hvalue hmiddle
        exact alike_done hassign.1 hafter hassign.2
      next => exact alike_done htarget hmiddle .nil
termination_by (tokens.length, 2 * Tier.equality.rank + 2)
decreasing_by
  · exact Prod.Lex.right _ (Nat.lt_succ_self _)
  · exact Prod.Lex.left _ _ (Nat.lt_of_succ_lt shorter)

theorem readChain_alike (lockstep : Lockstep R S T) (tier : Tier)
    {tokens tokens' : List Token} (h : S tokens tokens') :
    (readChain tier tokens).Alike (Alike R) S S (readChain tier tokens') := by
  rw [readChain, readChain]
  exact (readOperand_alike lockstep tier h).andThen fun left left' rest rest' _ _ hleft hrest =>
    readLinks_alike lockstep tier hleft hrest
termination_by (tokens.length, 2 * tier.rank + 1)

theorem readLinks_alike (lockstep : Lockstep R S T) (tier : Tier) {left left' : Expr}
    {tokens tokens' : List Token}
    (hleft : Alike R left left') (h : S tokens tokens') :
    (readLinks tier left tokens).Alike (Alike R) S S (readLinks tier left' tokens') := by
  cases lockstep.heads h with
  | nil =>
      rw [readLinks, readLinks]
      exact alike_done hleft h .nil
  | @cons operator operator' rest rest' hoperator =>
      rw [readLinks, readLinks]
      simp only [(lockstep.same hoperator).kind]
      split
      next hbinds =>
        have hrest := lockstep.tail h (binds_ne_semicolon hbinds)
        refine Alike.loosen (Alike.loosen ?_)
        refine (readOperand_alike lockstep tier hrest).andThen
          fun right right' _ _ _ _ hright hafter => ?_
        exact readLinks_alike lockstep tier (.binary hleft hoperator hright) hafter
      next => exact alike_done hleft h .nil
termination_by (tokens.length, 0)
decreasing_by
  all_goals
    subst_vars
    apply Prod.Lex.left
    simp only [List.length_cons]
    omega

theorem readOperand_alike (lockstep : Lockstep R S T) (tier : Tier)
    {tokens tokens' : List Token} (h : S tokens tokens') :
    (readOperand tier tokens).Alike (Alike R) S S (readOperand tier tokens') := by
  cases htier : tier.tighter? with
  | none =>
      rw [readOperand_of_tightest htier, readOperand_of_tightest htier]
      exact readUnary_alike lockstep h
  | some tighter =>
      rw [readOperand_of_tighter htier, readOperand_of_tighter htier]
      exact readChain_alike lockstep tighter h
termination_by (tokens.length, 2 * tier.rank)
decreasing_by
  · exact Prod.Lex.right _ (by have := tier.rank_pos; omega)
  · exact Prod.Lex.right _ (by have := Tier.rank_tighter htier; omega)

theorem readUnary_alike (lockstep : Lockstep R S T) {tokens tokens' : List Token}
    (h : S tokens tokens') :
    (readUnary tokens).Alike (Alike R) S S (readUnary tokens') := by
  cases lockstep.heads h with
  | nil =>
      rw [readUnary]
      exact alike_blame h
  | @cons token token' rest rest' htoken =>
      rw [readUnary, readUnary]
      simp only [(lockstep.same htoken).kind]
      split
      next hoperator =>
        have hrest := lockstep.tail h (isUnaryOperator_ne_semicolon hoperator)
        refine Alike.loosen ((readUnary_alike lockstep hrest).map fun right right' hright => ?_)
        exact .unary htoken hright
      next => exact readPrimary_alike lockstep h htoken
termination_by (tokens.length, 1)
decreasing_by
  · subst_vars
    exact Prod.Lex.right _ Nat.zero_lt_one
  · subst_vars
    exact Prod.Lex.left _ _ (Nat.lt_succ_self _)

theorem readPrimary_alike (lockstep : Lockstep R S T) {token token' : Token}
    {rest rest' : List Token}
    (h : S (token :: rest) (token' :: rest')) (htoken : R token token') :
    (readPrimary token rest).Alike (Alike R) S S (readPrimary token' rest') := by
  have hsame := lockstep.same htoken
  rw [readPrimary, readPrimary]
  rcases operand?_alike htoken hsame with ⟨hnone, hnone'⟩ |
    ⟨operand, operand', hsome, hsome', hoperand, hkind⟩
  · simp only [hnone, hnone', hsame.kind]
    split
    next hparen =>
      have hrest := lockstep.tail h (by simp [hparen])
      refine Alike.loosen ?_
      refine (read_alike lockstep hrest).andThen
        fun inner inner' after after' _ _ hinner hafter => ?_
      have hclosing : (expect .rightParen .closingParen after).Alike R S S
          (expect .rightParen .closingParen after') :=
        alike_expect hafter (lockstep.heads hafter) lockstep.same fun hcons hkind =>
          lockstep.tail hcons (by simp [hkind])
      exact hclosing.loosen.map fun _ _ _ => .grouping hinner
    next => exact alike_blame h
  · simp only [hsome, hsome']
    exact alike_done hoperand (lockstep.tail h hkind) .nil
termination_by (rest.length + 1, 0)

end

end

end Expr

end LoxLang

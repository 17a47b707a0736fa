import LoxLang.Proofs.Grammar.Prefix
import LoxLang.Proofs.Syntax.Clean

/-!
# Reading expressions

Each rule answers clean exactly where the grammar has a derivation, with its tree
and with the tokens behind it.  The proofs follow the rules, with their measure.
-/

namespace LoxLang.Expr

open LoxLang.Grammar LoxLang.Reply

/-! ## No refusal without an error -/

mutual

theorem read_explained (tokens : List Token) : (read tokens).Explained := by
  rw [read]
  apply (readChain_explained .equality tokens).andThen
  intro target middle shorter
  match middle, shorter with
  | [], _ => exact explained_done
  | equals :: rest, shorter =>
      dsimp only
      split
      · exact ((read_explained rest).andThen fun _ _ _ => explained_done).loosen.loosen
      · exact explained_done
termination_by (tokens.length, 2 * Tier.equality.rank + 2)
decreasing_by
  · exact Prod.Lex.right _ (Nat.lt_succ_self _)
  · exact Prod.Lex.left _ _ (Nat.lt_of_succ_lt shorter)

theorem readChain_explained (tier : Tier) (tokens : List Token) :
    (readChain tier tokens).Explained := by
  rw [readChain]
  exact (readOperand_explained tier tokens).andThen fun left rest _ =>
    readLinks_explained tier left rest
termination_by (tokens.length, 2 * tier.rank + 1)

theorem readLinks_explained (tier : Tier) (left : Expr) (tokens : List Token) :
    (readLinks tier left tokens).Explained := by
  match tokens with
  | [] =>
      rw [readLinks]
      exact explained_done
  | operator :: rest =>
      rw [readLinks]
      split
      · exact ((readOperand_explained tier rest).andThen fun right rest' _ =>
          readLinks_explained tier (.binary left operator right) rest').loosen.loosen
      · exact explained_done
termination_by (tokens.length, 0)

theorem readOperand_explained (tier : Tier) (tokens : List Token) :
    (readOperand tier tokens).Explained := by
  rw [readOperand]
  split
  next tighter h => exact readChain_explained tighter tokens
  next h => exact readUnary_explained tokens
termination_by (tokens.length, 2 * tier.rank)
decreasing_by
  · exact Prod.Lex.right _ (by have := Tier.rank_tighter ‹tier.tighter? = some _›; omega)
  · exact Prod.Lex.right _ (by have := tier.rank_pos; omega)

theorem readUnary_explained (tokens : List Token) : (readUnary tokens).Explained := by
  match tokens with
  | [] =>
      rw [readUnary]
      exact explained_blame
  | token :: rest =>
      rw [readUnary]
      split
      · exact ((readUnary_explained rest).map _).loosen
      · exact readPrimary_explained token rest
termination_by (tokens.length, 1)

theorem readPrimary_explained (token : Token) (rest : List Token) :
    (readPrimary token rest).Explained := by
  rw [readPrimary]
  split
  · exact explained_done
  · split
    · exact ((read_explained rest).andThen fun inner rest' _ =>
        explained_expect.loosen.map _).loosen
    · exact explained_blame
termination_by (rest.length + 1, 0)

end

/-! ## Reading and deriving -/

theorem isUnaryOperator_iff {kind : TokenKind} :
    isUnaryOperator kind = true ↔ kind ∈ [.bang, .minus] := by
  simp [isUnaryOperator]

theorem operand_tighter {tier tighter : Tier} (h : tier.tighter? = some tighter) :
    tier.operand = tighter.phrase := by
  cases tier <;> cases h <;> rfl

theorem operand_tightest {tier : Tier} (h : tier.tighter? = none) : tier.operand = .unary := by
  cases tier <;> first | rfl | cases h

theorem operand?_leftParen {token : Token} (h : token.kind = .leftParen) :
    token.operand? = none := by
  simp [Token.operand?, h]

mutual

theorem read_clean_iff (tokens : List Token) {node : Expr} {rest : List Token} :
    (read tokens).Clean node rest ↔ ParsesPhrase .assignment tokens node rest := by
  rw [read, clean_andThen, parses_assignment_iff]
  constructor
  · rintro ⟨target, middle, shorter, htarget, hnext⟩
    rw [readChain_clean_iff] at htarget
    match middle, shorter with
    | [], _ =>
        obtain ⟨rfl, rfl, -⟩ := clean_done.mp hnext
        exact .inl ⟨htarget, avoids_nil _⟩
    | equals :: more, shorter =>
        dsimp only at hnext
        split at hnext
        next hequals =>
          simp only [clean_loosen, clean_andThen, clean_done] at hnext
          obtain ⟨value, rest', _, hvalue, hnode, rfl, herrors⟩ := hnext
          rw [read_clean_iff more] at hvalue
          cases target with
          | reference name =>
              exact .inr ⟨name, equals, more, value, htarget, hequals, hvalue, hnode⟩
          | _ => cases herrors
        next hequals =>
          obtain ⟨rfl, rfl, -⟩ := clean_done.mp hnext
          exact .inl ⟨htarget, by simpa using hequals⟩
  · rintro (⟨htarget, hequal⟩ | ⟨name, equals, more, value, htarget, hequals, hvalue, rfl⟩)
    · have hclean := (readChain_clean_iff .equality tokens).mpr htarget
      refine ⟨node, rest, hclean.shorter, hclean, ?_⟩
      cases rest with
      | nil => exact clean_done.mpr ⟨rfl, rfl, rfl⟩
      | cons equals more =>
          have hother : equals.kind ≠ .equal := by simpa using hequal
          simp only [if_neg hother]
          exact clean_done.mpr ⟨rfl, rfl, rfl⟩
    · have hclean := (readChain_clean_iff .equality tokens).mpr htarget
      have shorter : (equals :: more).length < tokens.length := hclean.shorter
      refine ⟨.reference name, equals :: more, shorter, hclean, ?_⟩
      simp only [if_pos hequals, clean_loosen, clean_andThen, clean_done]
      have hrest := (read_clean_iff more).mpr hvalue
      exact ⟨value, rest, hrest.shorter, hrest, rfl, rfl, rfl⟩
termination_by (tokens.length, 2 * Tier.equality.rank + 2)
decreasing_by
  all_goals first
    | exact Prod.Lex.right _ (Nat.lt_succ_self _)
    | exact Prod.Lex.left _ _ (Nat.lt_of_succ_lt shorter)

theorem readChain_clean_iff (tier : Tier) (tokens : List Token) {node : Expr}
    {rest : List Token} :
    (readChain tier tokens).Clean node rest ↔ ParsesPhrase tier.phrase tokens node rest := by
  rw [readChain, clean_andThen, parses_tier_iff]
  constructor
  · rintro ⟨left, middle, shorter, hleft, hlinks⟩
    rw [readOperand_clean_iff] at hleft
    rw [readLinks_clean_iff tier left middle hleft.avoids] at hlinks
    exact ⟨left, middle, hleft, hlinks⟩
  · rintro ⟨left, middle, hleft, hlinks⟩
    have hclean := (readOperand_clean_iff tier tokens).mpr hleft
    have shorter := hclean.shorter
    exact ⟨left, middle, shorter, hclean,
      (readLinks_clean_iff tier left middle hleft.avoids).mpr hlinks⟩
termination_by (tokens.length, 2 * tier.rank + 1)

theorem readLinks_clean_iff (tier : Tier) (left : Expr) (tokens : List Token)
    (havoids : Avoids tier.operand.continuations tokens) {node : Expr} {rest : List Token} :
    (readLinks tier left tokens).Clean node rest ↔
      ParsesLinks tier.operand tier.operators left tokens node rest := by
  match tokens with
  | [] =>
      rw [readLinks, clean_done, parsesLinks_of_avoids (avoids_nil _)]
      simp
  | operator :: more =>
      rw [readLinks]
      split
      next hbinds =>
        rw [parsesLinks_cons (Tier.binds_iff.mp hbinds) tier.operators_apart]
        simp only [clean_loosen, clean_andThen]
        constructor
        · rintro ⟨right, middle, shorter, hright, hlinks⟩
          rw [readOperand_clean_iff] at hright
          rw [readLinks_clean_iff tier _ middle hright.avoids] at hlinks
          exact ⟨right, middle, hright, hlinks⟩
        · rintro ⟨right, middle, hright, hlinks⟩
          have hclean := (readOperand_clean_iff tier more).mpr hright
          have shorter := hclean.shorter
          exact ⟨right, middle, shorter, hclean,
            (readLinks_clean_iff tier _ middle hright.avoids).mpr hlinks⟩
      next hbinds =>
        have hother : Avoids tier.operators (operator :: more) :=
          avoids_cons.mpr fun h => hbinds (Tier.binds_iff.mpr h)
        rw [clean_done, parsesLinks_of_avoids (avoids_append_iff.mpr ⟨hother, havoids⟩)]
        simp
termination_by (tokens.length, 0)

theorem readOperand_clean_iff (tier : Tier) (tokens : List Token) {node : Expr}
    {rest : List Token} :
    (readOperand tier tokens).Clean node rest ↔ ParsesPhrase tier.operand tokens node rest := by
  rw [readOperand]
  split
  next tighter h =>
    rw [operand_tighter h]
    exact readChain_clean_iff tighter tokens
  next h =>
    rw [operand_tightest h]
    exact readUnary_clean_iff tokens
termination_by (tokens.length, 2 * tier.rank)
decreasing_by
  · exact Prod.Lex.right _ (by have := Tier.rank_tighter ‹tier.tighter? = some _›; omega)
  · exact Prod.Lex.right _ (by have := tier.rank_pos; omega)

theorem readUnary_clean_iff (tokens : List Token) {node : Expr} {rest : List Token} :
    (readUnary tokens).Clean node rest ↔ ParsesPhrase .unary tokens node rest := by
  match tokens with
  | [] =>
      rw [readUnary]
      exact iff_of_false not_clean_blame not_parsesPhrase_nil
  | token :: more =>
      rw [readUnary, parses_unary_iff]
      split
      next hoperator =>
        have hkind := isUnaryOperator_iff.mp hoperator
        simp only [clean_loosen, clean_map, readUnary_clean_iff more]
        constructor
        · exact fun h => .inl ⟨hkind, h⟩
        · rintro (⟨-, h⟩ | h)
          · exact h
          · exact absurd h (not_parses_primary hkind)
      next hoperator =>
        rw [readPrimary_clean_iff token more]
        constructor
        · exact .inr
        · rintro (⟨hkind, -⟩ | h)
          · exact absurd (isUnaryOperator_iff.mpr hkind) hoperator
          · exact h
termination_by (tokens.length, 1)

theorem readPrimary_clean_iff (token : Token) (more : List Token) {node : Expr}
    {rest : List Token} :
    (readPrimary token more).Clean node rest ↔
      ParsesPhrase .primary (token :: more) node rest := by
  rw [readPrimary, parses_primary_iff]
  split
  next operand hoperand =>
    have hparen : token.kind ≠ .leftParen := fun h => by
      rw [operand?_leftParen h] at hoperand
      cases hoperand
    simp [hoperand, hparen]
  next hoperand =>
    split
    next hparen =>
      simp only [clean_loosen, clean_andThen, clean_map, clean_expect]
      constructor
      · rintro ⟨inner, middle, shorter, hinner, closing, ⟨rfl, hclosing⟩, rfl⟩
        rw [read_clean_iff more] at hinner
        exact .inr ⟨hparen, inner, closing, parses_expression_iff.mpr hinner, hclosing, rfl⟩
      · rintro (⟨h, -⟩ | ⟨-, inner, closing, hinner, hclosing, rfl⟩)
        · rw [hoperand] at h
          cases h
        · have hclean := (read_clean_iff more).mpr (parses_expression_iff.mp hinner)
          exact ⟨inner, closing :: rest, hclean.shorter, hclean, closing, ⟨rfl, hclosing⟩, rfl⟩
    next hparen =>
      simp [hoperand, hparen]
termination_by (more.length + 1, 0)

end

end LoxLang.Expr

import LoxLang.Proofs.Grammar.Lookahead
import LoxLang.Syntax.Expression

/-!
# Derivations of a beginning of a text

`Parses` says that a text starts with a derivation of a symbol and goes on with
tokens that do not belong to it.  The lemmas of this file take one rule apart
each, so that no other file has to look into derivations of expressions.
-/

namespace LoxLang.Grammar

/-- The tokens before `rest` derive the symbol with the given tree, and `rest` does not go on. -/
def Parses (name : Symbol) (tokens : List Token) (node : name.Node) (rest : List Token) : Prop :=
  ∃ d : Derivation (.symbol name),
    d.tree = node ∧ tokens = d.yield ++ rest ∧ Avoids name.continuations rest

abbrev ParsesPhrase (name : Phrase) (tokens : List Token) (node : Expr) (rest : List Token) :
    Prop :=
  Parses (.phrase name) tokens node rest

@[simp] theorem avoids_none {tokens : List Token} : Avoids [] tokens :=
  fun _ _ => List.not_mem_nil

theorem avoids_append_iff {kinds kinds' : List TokenKind} {tokens : List Token} :
    Avoids (kinds ++ kinds') tokens ↔ Avoids kinds tokens ∧ Avoids kinds' tokens := by
  cases tokens <;> simp

theorem ParsesPhrase.avoids {name : Phrase} {tokens rest : List Token} {node : Expr}
    (h : ParsesPhrase name tokens node rest) : Avoids name.continuations rest := by
  obtain ⟨_, _, _, havoids⟩ := h
  exact havoids

theorem parses_kind {name : Symbol} {token : Token} {more rest : List Token} {node : name.Node}
    (solid : (Form.symbol name).mayBeEmpty = false)
    (h : Parses name (token :: more) node rest) : token.kind ∈ name.starts := by
  obtain ⟨d, -, htokens, -⟩ := h
  obtain ⟨first, others, hd⟩ := List.exists_cons_of_ne_nil (d.yield_ne_nil solid)
  rw [hd, List.cons_append] at htokens
  obtain ⟨rfl, -⟩ := List.cons.inj htokens
  exact d.kind_mem_starts hd

theorem not_parsesPhrase_nil {name : Phrase} {node : Expr} {rest : List Token} :
    ¬ ParsesPhrase name [] node rest := by
  rintro ⟨d, -, htokens, -⟩
  exact d.yield_ne_nil rfl (List.append_eq_nil_iff.mp htokens.symm).1

/-! ## Single operands -/

theorem operand?_of_literal {token : Token}
    (h : token.kind ∈ [.number, .string, .wordTrue, .wordFalse, .wordNil]) :
    token.operand? = some (literal token) := by
  simp only [List.mem_cons, List.not_mem_nil, or_false] at h
  rcases h with h | h | h | h | h <;> simp [Token.operand?, literal, h]

theorem operand?_of_name {token : Token} (h : token.kind = .identifier) :
    token.operand? = some (.reference token) := by
  simp [Token.operand?, h]

theorem operand?_eq_some_iff {token : Token} {node : Expr} :
    token.operand? = some node ↔
      (token.kind ∈ [.number, .string, .wordTrue, .wordFalse, .wordNil] ∧ literal token = node) ∨
        (token.kind = .identifier ∧ .reference token = node) := by
  constructor
  · intro h
    unfold Token.operand? at h
    split at h <;> simp_all [literal]
  · rintro (⟨h, rfl⟩ | ⟨h, rfl⟩)
    · exact operand?_of_literal h
    · exact operand?_of_name h

theorem parses_primary_iff {token : Token} {more rest : List Token} {node : Expr} :
    ParsesPhrase .primary (token :: more) node rest ↔
      (token.operand? = some node ∧ more = rest) ∨
        (token.kind = .leftParen ∧ ∃ inner closing,
          ParsesPhrase .expression more inner (closing :: rest) ∧ closing.kind = .rightParen ∧
            .grouping inner = node) := by
  constructor
  · rintro ⟨d, rfl, htokens, -⟩
    match d with
    | .node _ (.left (.leaf first allowed)) =>
        obtain ⟨rfl, rfl⟩ := List.cons.inj htokens
        exact .inl ⟨operand?_of_literal allowed, rfl⟩
    | .node _ (.right (.left (.pair (.leaf opening hopening)
          (.pair inner (.leaf closing hclosing))))) =>
        simp only [Derivation.yield, List.cons_append, List.nil_append, List.append_assoc,
          List.cons.injEq] at htokens
        obtain ⟨rfl, rfl⟩ := htokens
        replace hclosing : closing.kind = .rightParen := List.mem_singleton.mp hclosing
        have hstop : Avoids (Phrase.continuations .expression) (closing :: rest) := by
          rw [avoids_cons, hclosing]
          decide
        exact .inr ⟨List.mem_singleton.mp hopening, inner.tree, closing, ⟨inner, rfl, rfl, hstop⟩,
          hclosing, rfl⟩
    | .node _ (.right (.right (.leaf name hname))) =>
        obtain ⟨rfl, rfl⟩ := List.cons.inj htokens
        exact .inl ⟨operand?_of_name (List.mem_singleton.mp hname), rfl⟩
  · rintro (⟨hoperand, rfl⟩ | ⟨hopening, inner, closing, ⟨d, rfl, rfl, -⟩, hclosing, rfl⟩)
    · rcases operand?_eq_some_iff.mp hoperand with ⟨allowed, rfl⟩ | ⟨hname, rfl⟩
      · exact ⟨.node (.phrase .primary) (.left (.leaf token allowed)), rfl, rfl, avoids_none⟩
      · exact ⟨.node (.phrase .primary) (.right (.right (.leaf token (List.mem_singleton.mpr hname)))),
          rfl, rfl, avoids_none⟩
    · refine ⟨.node (.phrase .primary) (.right (.left (.pair
        (.leaf token (List.mem_singleton.mpr hopening))
        (.pair d (.leaf closing (List.mem_singleton.mpr hclosing)))))), rfl, ?_, avoids_none⟩
      simp [Derivation.yield]

theorem not_parses_primary {token : Token} {more rest : List Token} {node : Expr}
    (h : token.kind ∈ [.bang, .minus]) : ¬ ParsesPhrase .primary (token :: more) node rest := by
  intro hparses
  have hstarts := parses_kind rfl hparses
  simp only [List.mem_cons, List.not_mem_nil, or_false] at h
  rcases h with h | h <;> rw [h] at hstarts <;> exact absurd hstarts (by decide)

theorem parses_unary_iff {token : Token} {more rest : List Token} {node : Expr} :
    ParsesPhrase .unary (token :: more) node rest ↔
      (token.kind ∈ [.bang, .minus] ∧ ∃ right,
        ParsesPhrase .unary more right rest ∧ .unary token right = node) ∨
      ParsesPhrase .primary (token :: more) node rest := by
  constructor
  · rintro ⟨d, rfl, htokens, -⟩
    match d with
    | .node _ (.left (.pair (.leaf operator allowed) right)) =>
        obtain ⟨rfl, rfl⟩ := List.cons.inj htokens
        exact .inl ⟨allowed, right.tree, ⟨right, rfl, rfl, avoids_none⟩, rfl⟩
    | .node _ (.right operand) => exact .inr ⟨operand, rfl, htokens, avoids_none⟩
  · rintro (⟨allowed, right, ⟨d, rfl, rfl, -⟩, rfl⟩ | ⟨d, rfl, htokens, -⟩)
    · exact ⟨.node (.phrase .unary) (.left (.pair (.leaf token allowed) d)), rfl, rfl, avoids_none⟩
    · exact ⟨.node (.phrase .unary) (.right d), rfl, htokens, avoids_none⟩

/-! ## Chains -/

def ParsesLinks (operand : Phrase) (operators : List TokenKind) (left : Expr)
    (tokens : List Token) (node : Expr) (rest : List Token) : Prop :=
  ∃ d : Derivation (.repeated (link operand operators)),
    joinLeft left d.parts = node ∧ tokens = d.yield ++ rest ∧
      Avoids (operators ++ operand.continuations) rest

section

variable {operand : Phrase} {operators : List TokenKind} {left node : Expr}
  {operator : Token} {tokens more rest : List Token}

theorem parsesLinks_of_avoids (havoids : Avoids (operators ++ operand.continuations) tokens) :
    ParsesLinks operand operators left tokens node rest ↔ left = node ∧ tokens = rest := by
  constructor
  · rintro ⟨d, rfl, rfl, -⟩
    match d with
    | .stop => exact ⟨rfl, rfl⟩
    | .more (.pair (.leaf first allowed) _) _ =>
        exact absurd (List.mem_append_left _ allowed) (avoids_cons.mp havoids)
  · rintro ⟨rfl, rfl⟩
    exact ⟨.stop, rfl, rfl, havoids⟩

theorem parsesLinks_cons (allowed : operator.kind ∈ operators)
    (apart : ∀ kind ∈ operators, kind ∉ operand.continuations) :
    ParsesLinks operand operators left (operator :: more) node rest ↔
      ∃ right middle, ParsesPhrase operand more right middle ∧
        ParsesLinks operand operators (.binary left operator right) middle node rest := by
  constructor
  · rintro ⟨d, rfl, htokens, hrest⟩
    match d with
    | .stop =>
        rw [Derivation.yield, List.nil_append] at htokens
        rw [← htokens, avoids_cons] at hrest
        exact absurd (List.mem_append_left _ allowed) hrest
    | .more (.pair (.leaf first _) right) tail =>
        simp only [Derivation.yield, List.cons_append, List.nil_append, List.append_assoc,
          List.cons.injEq] at htokens
        obtain ⟨rfl, rfl⟩ := htokens
        have hmiddle : Avoids operand.continuations (tail.yield ++ rest) := by
          apply tail.avoids_append
          · rwa [Form.starts, starts_link]
          · exact fun _ => (avoids_append_iff.mp hrest).2
        exact ⟨right.tree, tail.yield ++ rest, ⟨right, rfl, rfl, hmiddle⟩, tail, rfl, rfl, hrest⟩
  · rintro ⟨right, middle, ⟨d, rfl, rfl, -⟩, tail, rfl, rfl, hrest⟩
    refine ⟨.more (.pair (.leaf operator allowed) d) tail, rfl, ?_, hrest⟩
    simp [Derivation.yield]

end

/-! ## The four tiers -/

end LoxLang.Grammar

namespace LoxLang.Tier

open LoxLang.Grammar

def phrase : Tier → Phrase
  | equality => .equality
  | comparison => .comparison
  | sum => .term
  | product => .factor

def operand : Tier → Phrase
  | equality => .comparison
  | comparison => .term
  | sum => .factor
  | product => .unary

def operators : Tier → List TokenKind
  | equality => [.bangEqual, .equalEqual]
  | comparison => [.greater, .greaterEqual, .less, .lessEqual]
  | sum => [.minus, .plus]
  | product => [.slash, .star]

theorem binds_iff {tier : Tier} {kind : TokenKind} :
    tier.binds kind = true ↔ kind ∈ tier.operators := by
  cases tier <;> simp [binds, operators, or_assoc]

theorem operators_apart (tier : Tier) :
    ∀ kind ∈ tier.operators, kind ∉ tier.operand.continuations := by
  cases tier <;> decide

theorem continuations_phrase (tier : Tier) :
    tier.phrase.continuations = tier.operators ++ tier.operand.continuations := by
  cases tier <;> rfl

end LoxLang.Tier

namespace LoxLang.Grammar

section

variable {tier : Tier} {tokens rest : List Token} {node : Expr}

theorem chain_iff {operand : Phrase} {operators : List TokenKind}
    (apart : ∀ kind ∈ operators, kind ∉ operand.continuations) :
    (∃ d : Derivation (chain operand operators), joinLeft d.parts.1 d.parts.2 = node ∧
        tokens = d.yield ++ rest ∧ Avoids (operators ++ operand.continuations) rest) ↔
      ∃ left middle, ParsesPhrase operand tokens left middle ∧
        ParsesLinks operand operators left middle node rest := by
  constructor
  · rintro ⟨d, rfl, rfl, hrest⟩
    cases d with
    | pair first links =>
        have hmiddle : Avoids operand.continuations (links.yield ++ rest) := by
          apply links.avoids_append
          · rwa [Form.starts, starts_link]
          · exact fun _ => (avoids_append_iff.mp hrest).2
        exact ⟨first.tree, links.yield ++ rest,
          ⟨first, rfl, List.append_assoc _ _ _, hmiddle⟩, links, rfl, rfl, hrest⟩
  · rintro ⟨left, middle, ⟨first, rfl, rfl, -⟩, links, rfl, rfl, hrest⟩
    exact ⟨.pair first links, rfl, (List.append_assoc _ _ _).symm, hrest⟩

theorem parses_tier_iff :
    ParsesPhrase tier.phrase tokens node rest ↔
      ∃ left middle, ParsesPhrase tier.operand tokens left middle ∧
        ParsesLinks tier.operand tier.operators left middle node rest := by
  rw [← chain_iff tier.operators_apart]
  cases tier
  all_goals
    constructor
    · rintro ⟨d, h⟩
      cases d with
      | node _ body => exact ⟨body, h⟩
    · rintro ⟨body, h⟩
      exact ⟨.node _ body, h⟩

theorem ParsesPhrase.alone (tier : Tier) (h : ParsesPhrase tier.operand tokens node rest)
    (havoids : Avoids tier.phrase.continuations rest) :
    ParsesPhrase tier.phrase tokens node rest := by
  rw [Tier.continuations_phrase] at havoids
  exact parses_tier_iff.mpr ⟨node, rest, h, (parsesLinks_of_avoids havoids).mpr ⟨rfl, rfl⟩⟩

theorem ParsesPhrase.equality (h : ParsesPhrase .unary tokens node rest)
    (havoids : Avoids (Phrase.continuations .equality) rest) :
    ParsesPhrase .equality tokens node rest := by
  have hfactor : ParsesPhrase .factor tokens node rest :=
    .alone .product h (havoids.mono (by decide))
  have hterm : ParsesPhrase .term tokens node rest :=
    .alone .sum hfactor (havoids.mono (by decide))
  have hcomparison : ParsesPhrase .comparison tokens node rest :=
    .alone .comparison hterm (havoids.mono (by decide))
  exact .alone .equality hcomparison havoids

theorem parses_operand {token : Token} (h : token.operand? = some node) :
    ParsesPhrase .unary (token :: rest) node rest :=
  parses_unary_iff.mpr (.inr (parses_primary_iff.mpr (.inl ⟨h, rfl⟩)))

theorem parses_name {name : Token} (hname : name.kind = .identifier)
    (havoids : Avoids (Phrase.continuations .equality) rest) :
    ParsesPhrase .equality (name :: rest) (.reference name) rest :=
  (parses_operand (operand?_of_name hname)).equality havoids

theorem joinLeft_binary (left : Expr) (operator : Token) (right : Expr)
    (links : List (Token × Expr)) :
    ∃ left' operator' right',
      joinLeft (.binary left operator right) links = .binary left' operator' right' := by
  induction links generalizing left operator right with
  | nil => exact ⟨left, operator, right, rfl⟩
  | cons next others ih => exact ih (.binary left operator right) next.1 next.2

def NamesAlone (name : Phrase) : Prop :=
  ∀ {tokens rest : List Token} {token : Token},
    ParsesPhrase name tokens (.reference token) rest →
      tokens = token :: rest ∧ token.kind = .identifier

theorem namesAlone_primary : NamesAlone .primary := by
  intro tokens rest token h
  cases tokens with
  | nil => exact absurd h not_parsesPhrase_nil
  | cons first more =>
      rcases parses_primary_iff.mp h with ⟨hoperand, rfl⟩ | ⟨-, inner, closing, -, -, hnode⟩
      · rcases operand?_eq_some_iff.mp hoperand with ⟨-, hnode⟩ | ⟨hname, hnode⟩
        · unfold literal at hnode
          split at hnode <;> cases hnode
        · obtain rfl := Expr.reference.inj hnode
          exact ⟨rfl, hname⟩
      · cases hnode

theorem namesAlone_unary : NamesAlone .unary := by
  intro tokens rest token h
  cases tokens with
  | nil => exact absurd h not_parsesPhrase_nil
  | cons first more =>
      rcases parses_unary_iff.mp h with ⟨-, right, -, hnode⟩ | hprimary
      · cases hnode
      · exact namesAlone_primary hprimary

theorem namesAlone_tier (tier : Tier) (h : NamesAlone tier.operand) : NamesAlone tier.phrase := by
  intro tokens rest token hparses
  obtain ⟨left, middle, hleft, links, hnode, rfl, -⟩ := parses_tier_iff.mp hparses
  match links with
  | .stop =>
      obtain rfl : left = .reference token := hnode
      exact h hleft
  | .more (.pair (.leaf operator _) right) tail =>
      obtain ⟨_, _, _, hbinary⟩ := joinLeft_binary left operator right.tree tail.parts
      exact absurd (hbinary.symm.trans hnode) (by simp)

theorem namesAlone_equality : NamesAlone .equality :=
  namesAlone_tier .equality <| namesAlone_tier .comparison <| namesAlone_tier .sum <|
    namesAlone_tier .product namesAlone_unary

/-! ## Assignments -/

theorem parses_expression_iff :
    ParsesPhrase .expression tokens node rest ↔ ParsesPhrase .assignment tokens node rest := by
  constructor
  · rintro ⟨d, h⟩
    cases d with
    | node _ body => exact ⟨body, h⟩
  · rintro ⟨d, h⟩
    exact ⟨.node (.phrase .expression) d, h⟩

/-- An assignment is an equality, or one that is a name alone, an equals sign and an assignment. -/
theorem parses_assignment_iff :
    ParsesPhrase .assignment tokens node rest ↔
      (ParsesPhrase .equality tokens node rest ∧ Avoids [.equal] rest) ∨
        ∃ name equals more value, ParsesPhrase .equality tokens (.reference name) (equals :: more) ∧
          equals.kind = .equal ∧ ParsesPhrase .assignment more value rest ∧
            .assign name value = node := by
  constructor
  · rintro ⟨d, rfl, htokens, hrest⟩
    match d with
    | .node _ (.left (.pair (.leaf name hname) (.pair (.leaf equals hequals) value))) =>
        simp only [Derivation.yield, List.cons_append, List.nil_append] at htokens
        subst htokens
        replace hequals : equals.kind = .equal := List.mem_singleton.mp hequals
        refine .inr ⟨name, equals, value.yield ++ rest, value.tree, ?_, hequals,
          ⟨value, rfl, rfl, hrest⟩, rfl⟩
        apply parses_name (List.mem_singleton.mp hname)
        rw [avoids_cons, hequals]
        decide
    | .node _ (.right chosen) =>
        exact .inl ⟨⟨chosen, rfl, htokens, hrest.mono (by decide)⟩, hrest.mono (by decide)⟩
  · rintro (⟨⟨d, rfl, htokens, hequality⟩, hequal⟩ |
      ⟨name, equals, more, value, hname, hequals, ⟨d, rfl, rfl, hrest⟩, rfl⟩)
    · exact ⟨.node (.phrase .assignment) (.right d), rfl, htokens,
        avoids_append_iff.mpr ⟨hequal, hequality⟩⟩
    · obtain ⟨rfl, hkind⟩ := namesAlone_equality hname
      exact ⟨.node (.phrase .assignment) (.left (.pair (.leaf name (List.mem_singleton.mpr hkind))
        (.pair (.leaf equals (List.mem_singleton.mpr hequals)) d))), rfl, rfl, hrest⟩

end

end LoxLang.Grammar

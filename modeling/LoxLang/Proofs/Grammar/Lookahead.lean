import LoxLang.Proofs.Grammar.Derivation

/-!
# One token of lookahead

For each symbol this file lists the kinds with which it can start and the kinds
with which a longer derivation of it would go on.  Where a derivation is followed
by none of the latter, its tokens determine it.  The rule for assignments is the
one place where a single token does not decide between two alternatives; there
the token behind the name does.
-/

namespace LoxLang.Grammar

/-! ## First tokens -/

def operandStarts : List TokenKind :=
  [.number, .string, .wordTrue, .wordFalse, .wordNil, .leftParen, .identifier]

def expressionStarts : List TokenKind :=
  .bang :: .minus :: operandStarts

def Symbol.starts : Symbol → List TokenKind
  | .varDecl => [.wordVar]
  | .printStmt => [.wordPrint]
  | .block => [.leftBrace]
  | .exprStmt => expressionStarts
  | .statement => .wordPrint :: .leftBrace :: expressionStarts
  | .program | .declaration => .wordVar :: .wordPrint :: .leftBrace :: expressionStarts
  | .phrase .primary => operandStarts
  | .phrase _ => expressionStarts

namespace Form

def mayBeEmpty : Form → Bool
  | .oneOf _ => false
  | .symbol name => name = .program
  | .sequence first second => first.mayBeEmpty && second.mayBeEmpty
  | .choice first second => first.mayBeEmpty || second.mayBeEmpty
  | .optional _ => true
  | .repeated _ => true

def starts : Form → List TokenKind
  | .oneOf kinds => kinds
  | .symbol name => name.starts
  | .sequence first second =>
      first.starts ++ if first.mayBeEmpty then second.starts else []
  | .choice first second => first.starts ++ second.starts
  | .optional item => item.starts
  | .repeated item => item.starts

end Form

@[simp] theorem starts_link (operand : Phrase) (operators : List TokenKind) :
    (link operand operators).starts = operators := by
  simp [link, Form.starts, Form.mayBeEmpty]

theorem mayBeEmpty_rule (name : Symbol) :
    (rule name).mayBeEmpty = (Form.symbol name).mayBeEmpty := by
  cases name with
  | phrase name => cases name <;> rfl
  | _ => rfl

theorem starts_rule (name : Symbol) : ∀ kind ∈ (rule name).starts, kind ∈ name.starts := by
  cases name with
  | phrase name => cases name <;> decide
  | _ => decide

namespace Derivation

theorem yield_ne_nil {form : Form} (d : Derivation form) (solid : form.mayBeEmpty = false) :
    d.yield ≠ [] := by
  induction d with
  | leaf => simp [yield]
  | node name body ih => exact ih (by rw [mayBeEmpty_rule, solid])
  | pair before after ihBefore ihAfter =>
      intro empty
      obtain ⟨hbefore, hafter⟩ := List.append_eq_nil_iff.mp empty
      rcases Bool.and_eq_false_iff.mp solid with solid | solid
      · exact ihBefore solid hbefore
      · exact ihAfter solid hafter
  | left chosen ih => exact ih (Bool.or_eq_false_iff.mp solid).1
  | right chosen ih => exact ih (Bool.or_eq_false_iff.mp solid).2
  | absent | present | stop | more => cases solid

theorem kind_mem_starts {form : Form} (d : Derivation form) {token : Token} {rest : List Token}
    (h : d.yield = token :: rest) : token.kind ∈ form.starts := by
  induction d generalizing token rest with
  | leaf other allowed =>
      obtain ⟨rfl, -⟩ := List.cons.inj h
      exact allowed
  | node name body ih => exact starts_rule name _ (ih h)
  | pair before after ihBefore ihAfter =>
      simp only [Form.starts, List.mem_append]
      cases hbefore : before.yield with
      | nil =>
          have empty : Form.mayBeEmpty _ = true :=
            eq_true_of_ne_false fun solid => before.yield_ne_nil solid hbefore
          right
          rw [if_pos empty]
          exact ihAfter (by simpa [yield, hbefore] using h)
      | cons first more =>
          obtain ⟨rfl, -⟩ : first = token ∧ _ := by simpa [yield, hbefore] using h
          exact .inl (ihBefore hbefore)
  | left chosen ih => exact List.mem_append_left _ (ih h)
  | right chosen ih => exact List.mem_append_right _ (ih h)
  | absent | stop => cases h
  | present found ih => exact ih h
  | more head tail ihHead ihTail =>
      cases hhead : head.yield with
      | nil => exact ihTail (by simpa [yield, hhead] using h)
      | cons first more =>
          obtain ⟨rfl, -⟩ : first = token ∧ _ := by simpa [yield, hhead] using h
          exact ihHead hhead

end Derivation

/-! ## The tokens that may not follow -/

def Avoids (kinds : List TokenKind) (tokens : List Token) : Prop :=
  ∀ token ∈ tokens.head?, token.kind ∉ kinds

@[simp] theorem avoids_nil (kinds : List TokenKind) : Avoids kinds [] := by
  simp [Avoids]

@[simp] theorem avoids_cons {kinds : List TokenKind} {token : Token} {rest : List Token} :
    Avoids kinds (token :: rest) ↔ token.kind ∉ kinds := by
  simp [Avoids]

theorem Avoids.mono {few many : List TokenKind} {tokens : List Token}
    (h : Avoids many tokens) (hsub : few ⊆ many) : Avoids few tokens :=
  fun token hmem hkind => h token hmem (hsub hkind)

theorem Derivation.avoids_append {form : Form} (d : Derivation form) {kinds : List TokenKind}
    {rest : List Token} (apart : ∀ kind ∈ form.starts, kind ∉ kinds)
    (hrest : form.mayBeEmpty = true → Avoids kinds rest) : Avoids kinds (d.yield ++ rest) := by
  cases h : d.yield with
  | nil => exact hrest (eq_true_of_ne_false fun solid => d.yield_ne_nil solid h)
  | cons token more => exact avoids_cons.mpr (apart _ (d.kind_mem_starts h))

/-- The operators that may follow an operand of an expression symbol and belong to it. -/
def Phrase.continuations : Phrase → List TokenKind
  | .primary | .unary => []
  | .factor => [.slash, .star]
  | .term => [.minus, .plus, .slash, .star]
  | .comparison => [.greater, .greaterEqual, .less, .lessEqual, .minus, .plus, .slash, .star]
  | .equality =>
      [.bangEqual, .equalEqual, .greater, .greaterEqual, .less, .lessEqual, .minus, .plus,
        .slash, .star]
  | .assignment | .expression =>
      [.equal, .bangEqual, .equalEqual, .greater, .greaterEqual, .less, .lessEqual, .minus, .plus,
        .slash, .star]

def Symbol.continuations : Symbol → List TokenKind
  | .program => Symbol.declaration.starts
  | .declaration | .varDecl | .statement | .printStmt | .block | .exprStmt => []
  | .phrase name => name.continuations

def Form.continuations : Form → List TokenKind
  | .oneOf _ => []
  | .symbol name => name.continuations
  | .sequence first second =>
      second.continuations ++ if second.mayBeEmpty then first.continuations else []
  | .choice first second => first.continuations ++ second.continuations
  | .optional item => item.starts ++ item.continuations
  | .repeated item => item.starts ++ item.continuations

theorem continuations_rule (name : Symbol) :
    ∀ kind ∈ (rule name).continuations, kind ∈ name.continuations := by
  cases name with
  | phrase name => cases name <;> decide
  | _ => decide

/-! ## Derivations are determined by their tokens -/

/-- No text has both forms when none of the given kinds follows. -/
def Apart (kinds : List TokenKind) (first second : Form) : Prop :=
  ∀ (d : Derivation first) (d' : Derivation second) (rest rest' : List Token),
    Avoids kinds rest → Avoids kinds rest' → d.yield ++ rest ≠ d'.yield ++ rest'

theorem apart_of_starts {kinds : List TokenKind} {first second : Form}
    (hfirst : first.mayBeEmpty = false) (hsecond : second.mayBeEmpty = false)
    (apart : ∀ kind ∈ first.starts, kind ∉ second.starts) : Apart kinds first second := by
  intro d d' rest rest' _ _ same
  obtain ⟨token, more, hd⟩ := List.exists_cons_of_ne_nil (d.yield_ne_nil hfirst)
  obtain ⟨token', more', hd'⟩ := List.exists_cons_of_ne_nil (d'.yield_ne_nil hsecond)
  rw [hd, hd'] at same
  obtain ⟨rfl, -⟩ := List.cons.inj same
  exact apart _ (d.kind_mem_starts hd) (d'.kind_mem_starts hd')

/-- What each form in a rule must satisfy for its derivations to be determined. -/
def Form.Deterministic (kinds : List TokenKind) : Form → Prop
  | .oneOf _ => True
  | .symbol _ => True
  | .sequence first second =>
      first.Deterministic first.continuations ∧ second.Deterministic kinds ∧
        (∀ kind ∈ second.starts, kind ∉ first.continuations)
  | .choice first second =>
      first.Deterministic kinds ∧ second.Deterministic kinds ∧ Apart kinds first second
  | .optional item => item.Deterministic kinds ∧ item.mayBeEmpty = false
  | .repeated item =>
      item.Deterministic item.continuations ∧ item.mayBeEmpty = false ∧
        ∀ kind ∈ item.starts, kind ∉ item.continuations

/-- Behind a name that a derivation starts with, only the given kinds can come. -/
def NameStands (kinds : List TokenKind) (form : Form) : Prop :=
  ∀ (d : Derivation form) (name : Token) (more : List Token), d.yield = name :: more →
    name.kind = .identifier → ∀ token ∈ more.head?, token.kind ∈ kinds

theorem NameStands.symbol {kinds : List TokenKind} {name : Symbol}
    (h : NameStands kinds (rule name)) : NameStands kinds (.symbol name)
  | .node _ body => h body

theorem NameStands.chain {kinds operators : List TokenKind} {operand : Phrase}
    (h : NameStands kinds (phrase operand)) :
    NameStands (operators ++ kinds) (chain operand operators)
  | .pair first links, name, more, hyield, hname => by
      intro token htoken
      obtain ⟨front, rest, hfirst⟩ := List.exists_cons_of_ne_nil (first.yield_ne_nil rfl)
      simp only [Derivation.yield, hfirst, List.cons_append, List.cons.injEq] at hyield
      obtain ⟨rfl, rfl⟩ := hyield
      cases rest with
      | nil =>
          obtain ⟨others, hlinks⟩ := List.head?_eq_some_iff.mp (Option.mem_def.mp htoken)
          have hoperator := links.kind_mem_starts hlinks
          rw [Form.starts, starts_link] at hoperator
          exact List.mem_append_left _ hoperator
      | cons next others =>
          exact List.mem_append_right _ (h first front (next :: others) hfirst hname token htoken)

theorem nameStands_primary : NameStands [] (phrase .primary)
  | .node _ (.left (.leaf token allowed)), name, more, hyield, hname => by
      obtain ⟨rfl, rfl⟩ := List.cons.inj hyield
      rw [hname] at allowed
      exact absurd allowed (by decide)
  | .node _ (.right (.left (.pair (.leaf paren allowed) _))), name, more, hyield, hname => by
      obtain ⟨rfl, -⟩ := List.cons.inj hyield
      rw [hname] at allowed
      exact absurd allowed (by decide)
  | .node _ (.right (.right (.leaf token allowed))), name, more, hyield, hname => by
      obtain ⟨rfl, rfl⟩ := List.cons.inj hyield
      simp

theorem nameStands_unary : NameStands [] (phrase .unary)
  | .node _ (.left (.pair (.leaf operator allowed) _)), name, more, hyield, hname => by
      obtain ⟨rfl, -⟩ := List.cons.inj hyield
      rw [hname] at allowed
      exact absurd allowed (by decide)
  | .node _ (.right primary), name, more, hyield, hname =>
      nameStands_primary primary name more hyield hname

theorem nameStands_equality :
    NameStands (Phrase.continuations .equality) (phrase .equality) :=
  nameStands_unary.chain.symbol.chain.symbol.chain.symbol.chain.symbol

theorem apart_assignment :
    Apart (Phrase.continuations .assignment)
      (.sequence (token .identifier) (.sequence (token .equal) (phrase .assignment)))
      (phrase .equality)
  | .pair (.leaf name hname) (.pair (.leaf equals hequals) value), d, rest, rest', _, havoids => by
      intro same
      replace hname : name.kind = .identifier := List.mem_singleton.mp hname
      replace hequals : equals.kind = .equal := List.mem_singleton.mp hequals
      obtain ⟨front, more, hd⟩ := List.exists_cons_of_ne_nil (d.yield_ne_nil rfl)
      simp only [Derivation.yield, hd, List.cons_append, List.nil_append, List.cons.injEq] at same
      obtain ⟨rfl, same⟩ := same
      cases more with
      | nil =>
          rw [List.nil_append] at same
          rw [← same, avoids_cons, hequals] at havoids
          exact havoids (by decide)
      | cons next others =>
          obtain ⟨rfl, -⟩ := List.cons.inj same
          have hnext := nameStands_equality d name _ hd hname equals rfl
          rw [hequals] at hnext
          exact absurd hnext (by decide)

theorem deterministic_chain {operand : Phrase} {operators kinds : List TokenKind}
    (apart : ∀ kind ∈ operators, kind ∉ operand.continuations) :
    (chain operand operators).Deterministic kinds := by
  refine ⟨trivial, ⟨⟨trivial, trivial, ?_⟩, rfl, ?_⟩, ?_⟩
  · exact fun _ _ => List.not_mem_nil
  · rw [starts_link]
    change ∀ kind ∈ operators, kind ∉ operand.continuations ++ []
    rwa [List.append_nil]
  · rw [Form.starts, starts_link]
    exact apart

theorem deterministic_rule (name : Symbol) : (rule name).Deterministic name.continuations := by
  cases name with
  | program => exact ⟨trivial, rfl, by decide⟩
  | declaration => exact ⟨trivial, trivial, apart_of_starts rfl rfl (by decide)⟩
  | varDecl =>
      exact ⟨trivial, ⟨trivial, ⟨⟨⟨trivial, trivial, by decide⟩, rfl⟩, trivial, by decide⟩,
        by decide⟩, by decide⟩
  | statement =>
      exact ⟨trivial, ⟨trivial, trivial, apart_of_starts rfl rfl (by decide)⟩,
        apart_of_starts rfl rfl (by decide)⟩
  | printStmt => exact ⟨trivial, ⟨trivial, trivial, by decide⟩, by decide⟩
  | block =>
      exact ⟨trivial, ⟨⟨trivial, rfl, by decide⟩, trivial, by decide⟩, by decide⟩
  | exprStmt => exact ⟨trivial, trivial, by decide⟩
  | phrase name =>
      cases name with
      | expression => trivial
      | assignment =>
          exact ⟨⟨trivial, ⟨trivial, trivial, by decide⟩, by decide⟩, trivial, apart_assignment⟩
      | equality | comparison | term | factor => exact deterministic_chain (by decide)
      | unary =>
          exact ⟨⟨trivial, trivial, by decide⟩, trivial, apart_of_starts rfl rfl (by decide)⟩
      | primary =>
          exact ⟨trivial, ⟨⟨trivial, ⟨trivial, trivial, by decide⟩, by decide⟩, trivial,
            apart_of_starts rfl rfl (by decide)⟩, apart_of_starts rfl rfl (by decide)⟩

namespace Derivation

theorem ne_append_of_avoids {item : Form} (d : Derivation item) {kinds : List TokenKind}
    (solid : item.mayBeEmpty = false) (hsub : item.starts ++ item.continuations ⊆ kinds)
    {rest rest' : List Token} (havoids : Avoids kinds rest) : rest ≠ d.yield ++ rest' := by
  rintro rfl
  obtain ⟨token, more, hd⟩ := List.exists_cons_of_ne_nil (d.yield_ne_nil solid)
  rw [hd, List.cons_append, avoids_cons] at havoids
  exact havoids (hsub (List.mem_append_left _ (d.kind_mem_starts hd)))

/-- Two derivations of one form over the same tokens are the same, also when more tokens follow
that neither could have gone on with. -/
theorem eq_of_yield_append {form : Form} (d d' : Derivation form) {kinds : List TokenKind}
    (deterministic : form.Deterministic kinds) (hsub : form.continuations ⊆ kinds)
    {rest rest' : List Token} (same : d.yield ++ rest = d'.yield ++ rest')
    (havoids : Avoids kinds rest) (havoids' : Avoids kinds rest') : d = d' := by
  induction d generalizing kinds rest rest' with
  | leaf token allowed =>
      cases d' with
      | leaf token' allowed' =>
          obtain ⟨rfl, -⟩ := List.cons.inj same
          rfl
  | node name body ih =>
      cases d' with
      | node _ body' =>
          rw [ih body' (deterministic_rule name) (continuations_rule name) same
            (havoids.mono hsub) (havoids'.mono hsub)]
  | @pair first second before after ihBefore ihAfter =>
      cases d' with
      | pair before' after' =>
          obtain ⟨hfirst, hsecond, apart⟩ := deterministic
          have hcontinue : second.mayBeEmpty = true → first.continuations ⊆ kinds :=
            fun empty kind hkind => hsub (List.mem_append_right _ (by rwa [if_pos empty]))
          simp only [yield, List.append_assoc] at same
          obtain rfl := ihBefore before' hfirst (List.Subset.refl _) same
            (after.avoids_append apart fun empty => havoids.mono (hcontinue empty))
            (after'.avoids_append apart fun empty => havoids'.mono (hcontinue empty))
          rw [ihAfter after' hsecond (fun kind hkind => hsub (List.mem_append_left _ hkind))
            (List.append_cancel_left same) havoids havoids']
  | left chosen ih =>
      obtain ⟨hfirst, -, apart⟩ := deterministic
      cases d' with
      | left chosen' =>
          rw [ih chosen' hfirst (fun kind hkind => hsub (List.mem_append_left _ hkind)) same
            havoids havoids']
      | right chosen' => exact absurd same (apart chosen chosen' _ _ havoids havoids')
  | right chosen ih =>
      obtain ⟨-, hsecond, apart⟩ := deterministic
      cases d' with
      | left chosen' => exact absurd same.symm (apart chosen' chosen _ _ havoids' havoids)
      | right chosen' =>
          rw [ih chosen' hsecond (fun kind hkind => hsub (List.mem_append_right _ hkind)) same
            havoids havoids']
  | absent =>
      cases d' with
      | absent => rfl
      | present found' =>
          exact absurd same (found'.ne_append_of_avoids deterministic.2 hsub havoids)
  | present found ih =>
      cases d' with
      | absent => exact absurd same.symm (found.ne_append_of_avoids deterministic.2 hsub havoids')
      | present found' =>
          rw [ih found' deterministic.1 (fun kind hkind => hsub (List.mem_append_right _ hkind)) same
            havoids havoids']
  | stop =>
      cases d' with
      | stop => rfl
      | more head' tail' =>
          rw [yield, yield, List.append_assoc] at same
          exact absurd same (head'.ne_append_of_avoids deterministic.2.1 hsub havoids)
  | @more item head tail ihHead ihTail =>
      cases d' with
      | stop =>
          rw [yield, yield, List.append_assoc] at same
          exact absurd same.symm (head.ne_append_of_avoids deterministic.2.1 hsub havoids')
      | more head' tail' =>
          have hitem := deterministic.1
          have apart := deterministic.2.2
          have hcontinue : item.continuations ⊆ kinds :=
            fun kind hkind => hsub (List.mem_append_right _ hkind)
          simp only [yield, List.append_assoc] at same
          obtain rfl := ihHead head' hitem (List.Subset.refl _) same
            (tail.avoids_append apart fun _ => havoids.mono hcontinue)
            (tail'.avoids_append apart fun _ => havoids'.mono hcontinue)
          rw [ihTail tail' deterministic hsub (List.append_cancel_left same) havoids havoids']

theorem eq_of_yield_eq {name : Symbol} {d d' : Derivation (.symbol name)}
    (same : d.yield = d'.yield) : d = d' :=
  d.eq_of_yield_append d' trivial (List.Subset.refl _) (congrArg (· ++ []) same)
    (avoids_nil _) (avoids_nil _)

end Derivation

end LoxLang.Grammar

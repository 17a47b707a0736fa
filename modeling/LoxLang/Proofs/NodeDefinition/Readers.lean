import LoxLang.Proofs.NodeDefinition.Language

/-!
# The readers of definitions

What the readers of a definition do, as relations between the tokens, what is read of them
and the tokens left.  A reader looks at no more than one token behind what it reads.
-/

namespace LoxLang.NodeDefinition

/-! ## The first token -/

def Starts (kind : DefinitionToken.Kind) (tokens : List DefinitionToken) : Prop :=
  tokens.head?.map DefinitionToken.kind = some kind

@[simp] theorem not_starts_nil (kind : DefinitionToken.Kind) : ¬Starts kind [] := by
  simp [Starts]

@[simp] theorem starts_cons {kind : DefinitionToken.Kind} {token : DefinitionToken}
    {rest : List DefinitionToken} : Starts kind (token :: rest) ↔ token.kind = kind := by
  simp [Starts]

theorem Starts.exists_cons {kind : DefinitionToken.Kind} {tokens : List DefinitionToken}
    (h : Starts kind tokens) : ∃ token rest, tokens = token :: rest ∧ token.kind = kind := by
  cases tokens with
  | nil => exact absurd h (not_starts_nil kind)
  | cons token rest => exact ⟨token, rest, rfl, starts_cons.mp h⟩

theorem starts_append_cons {kind : DefinitionToken.Kind} {front : List DefinitionToken}
    {next : DefinitionToken} {rest : List DefinitionToken} (rest' : List DefinitionToken) :
    Starts kind (front ++ next :: rest') ↔ Starts kind (front ++ next :: rest) := by
  cases front <;> simp

/-! ## What the readers do -/

inductive ReadsSuffix : List DefinitionToken → Bool → List DefinitionToken → Prop
  | none {tokens} : ¬Starts .optional tokens → ReadsSuffix tokens false tokens
  | optional {token rest} : token.kind = .optional → ReadsSuffix (token :: rest) true rest

inductive ReadsType : List DefinitionToken → Option FieldType → List DefinitionToken → Prop
  | unnamed {tokens} : ¬Starts .name tokens → ReadsType tokens none tokens
  | plain {name rest optional unread} :
      name.kind = .name → ¬Starts .lessThan rest → ReadsSuffix rest optional unread →
      ReadsType (name :: rest) (some (.plain (String.ofList name.text) optional)) unread
  | unargued {name opening inside unread} :
      name.kind = .name → opening.kind = .lessThan → ReadsType inside none unread →
      ReadsType (name :: opening :: inside) none unread
  | unclosed {name opening inside argument unread} :
      name.kind = .name → opening.kind = .lessThan → ReadsType inside (some argument) unread →
      ¬Starts .moreThan unread → ReadsType (name :: opening :: inside) none unread
  | applied {name opening inside argument closing rest optional unread} :
      name.kind = .name → opening.kind = .lessThan →
      ReadsType inside (some argument) (closing :: rest) → closing.kind = .moreThan →
      ReadsSuffix rest optional unread →
      ReadsType (name :: opening :: inside)
        (some (.applied (String.ofList name.text) argument optional)) unread

inductive ReadsFields :
    List DefinitionToken → Option (List NodeField) → List DefinitionToken → Prop
  | untyped {tokens unread} : ReadsType tokens none unread → ReadsFields tokens none unread
  | unnamed {tokens type unread} :
      ReadsType tokens (some type) unread → ¬Starts .name unread → ReadsFields tokens none unread
  | last {tokens type name} :
      ReadsType tokens (some type) [name] → name.kind = .name →
      ReadsFields tokens (some [⟨String.ofList name.text, type⟩]) []
  | unparted {tokens type name next rest} :
      ReadsType tokens (some type) (name :: next :: rest) → name.kind = .name →
      next.kind ≠ .comma → ReadsFields tokens none (next :: rest)
  | more {tokens type name comma rest fields unread} :
      ReadsType tokens (some type) (name :: comma :: rest) → name.kind = .name →
      comma.kind = .comma → ReadsFields rest fields unread →
      ReadsFields tokens (fields.map (⟨String.ofList name.text, type⟩ :: ·)) unread

inductive ReadsDefinition :
    List DefinitionToken → Option NodeDefinition → List DefinitionToken → Prop
  | unnamed {tokens} : ¬Starts .name tokens → ReadsDefinition tokens none tokens
  | unparted {name rest} :
      name.kind = .name → ¬Starts .colon rest → ReadsDefinition (name :: rest) none rest
  | fields {name colon rest fields unread} :
      name.kind = .name → colon.kind = .colon → ReadsFields rest fields unread →
      ReadsDefinition (name :: colon :: rest) (fields.map (⟨String.ofList name.text, ·⟩)) unread

section

variable {tokens unread : List DefinitionToken} {bound : Nat} {α : Type}

theorem expect_of_kind {kind : DefinitionToken.Kind} {token : DefinitionToken}
    (h : token.kind = kind) (rest : List DefinitionToken) :
    expect kind (token :: rest) =
      .ok (String.ofList token.text, ⟨rest, Nat.lt_succ_self _⟩) :=
  if_pos h

theorem expect_of_not {kind : DefinitionToken.Kind} (h : ¬Starts kind tokens) :
    expect kind tokens = .error tokens := by
  cases tokens with
  | nil => rfl
  | cons token rest => exact if_neg (by simpa using h)

theorem ReadsSuffix.readOptional {optional : Bool} (h : ReadsSuffix tokens optional unread) :
    ∃ hlength, readOptional tokens = (optional, ⟨unread, hlength⟩) := by
  cases h with
  | none h =>
      cases tokens with
      | nil => exact ⟨_, rfl⟩
      | cons token rest => exact ⟨Nat.le_refl _, if_neg (by simpa using h)⟩
  | @optional token rest h => exact ⟨Nat.le_succ _, if_pos h⟩

def Reading.Gives : Reading α bound → Option α → List DefinitionToken → Prop
  | .error unread, result, left => result = none ∧ unread = left
  | .ok (a, ⟨unread, _⟩), result, left => result = some a ∧ unread = left

theorem Reading.Gives.error {reading : Reading α bound} (h : reading.Gives none unread) :
    reading = .error unread := by
  cases reading with
  | error left => exact congrArg Except.error h.2
  | ok read => cases h.1

theorem Reading.Gives.ok {reading : Reading α bound} {a : α} (h : reading.Gives (some a) unread) :
    ∃ hlength, reading = .ok (a, ⟨unread, hlength⟩) := by
  cases reading with
  | error left => cases h.1
  | ok read =>
      obtain ⟨b, left, hlength⟩ := read
      obtain ⟨hsame, rfl⟩ := h
      cases hsame
      exact ⟨hlength, rfl⟩

theorem ReadsType.gives {type : Option FieldType} (h : ReadsType tokens type unread) :
    (readType tokens).Gives type unread := by
  induction h with
  | unnamed h =>
      rw [readType, expect_of_not h]
      exact ⟨rfl, rfl⟩
  | plain hname hless hsuffix =>
      obtain ⟨_, hsuffix⟩ := hsuffix.readOptional
      rw [readType, expect_of_kind hname]
      simp only [expect_of_not hless, hsuffix]
      exact ⟨rfl, rfl⟩
  | unargued hname hopening _ ih =>
      rw [readType, expect_of_kind hname]
      simp only [expect_of_kind hopening, ih.error]
      exact ⟨rfl, rfl⟩
  | unclosed hname hopening _ hclosing ih =>
      obtain ⟨_, hinside⟩ := ih.ok
      rw [readType, expect_of_kind hname]
      simp only [expect_of_kind hopening, hinside, expect_of_not hclosing]
      exact ⟨rfl, rfl⟩
  | applied hname hopening _ hclosing hsuffix ih =>
      obtain ⟨_, hinside⟩ := ih.ok
      obtain ⟨_, hsuffix⟩ := hsuffix.readOptional
      rw [readType, expect_of_kind hname]
      simp only [expect_of_kind hopening, hinside, expect_of_kind hclosing, hsuffix]
      exact ⟨rfl, rfl⟩

theorem readField_of_untyped (h : ReadsType tokens none unread) :
    readField tokens = .error unread := by
  rw [readField, h.gives.error]

theorem readField_of_unnamed {type : FieldType} (h : ReadsType tokens (some type) unread)
    (hname : ¬Starts .name unread) : readField tokens = .error unread := by
  obtain ⟨_, hread⟩ := h.gives.ok
  rw [readField, hread]
  simp only [expect_of_not hname]

theorem readField_of_named {type : FieldType} {name : DefinitionToken}
    (h : ReadsType tokens (some type) (name :: unread)) (hname : name.kind = .name) :
    ∃ hlength, readField tokens = .ok (⟨String.ofList name.text, type⟩, ⟨unread, hlength⟩) := by
  obtain ⟨hlength, hread⟩ := h.gives.ok
  refine ⟨Nat.lt_of_succ_lt hlength, ?_⟩
  rw [readField, hread]
  simp only [expect_of_kind hname]

def Outcome (outcome : Except (List DefinitionToken) α) (result : Option α)
    (left : List DefinitionToken) : Prop :=
  match outcome with
  | .error unread => result = none ∧ unread = left
  | .ok a => result = some a ∧ left = []

theorem ReadsFields.outcome {fields : Option (List NodeField)}
    (h : ReadsFields tokens fields unread) : Outcome (readFields tokens) fields unread := by
  induction h with
  | untyped h =>
      rw [readFields, readField_of_untyped h]
      exact ⟨rfl, rfl⟩
  | unnamed h hname =>
      rw [readFields, readField_of_unnamed h hname]
      exact ⟨rfl, rfl⟩
  | last h hname =>
      obtain ⟨_, hread⟩ := readField_of_named h hname
      rw [readFields, hread]
      exact ⟨rfl, rfl⟩
  | unparted h hname hcomma =>
      obtain ⟨_, hread⟩ := readField_of_named h hname
      rw [readFields, hread]
      simp only [if_neg hcomma]
      exact ⟨rfl, rfl⟩
  | @more tokens type name comma rest fields unread h hname hcomma _ ih =>
      obtain ⟨_, hread⟩ := readField_of_named h hname
      rw [readFields, hread]
      simp only [if_pos hcomma]
      cases hrest : readFields rest with
      | error left =>
          rw [hrest] at ih
          obtain ⟨rfl, rfl⟩ := ih
          exact ⟨rfl, rfl⟩
      | ok others =>
          rw [hrest] at ih
          obtain ⟨rfl, rfl⟩ := ih
          exact ⟨rfl, rfl⟩

theorem ReadsDefinition.outcome {definition : Option NodeDefinition}
    (h : ReadsDefinition tokens definition unread) :
    Outcome (ofTokens tokens) definition unread := by
  cases h with
  | unnamed h =>
      rw [ofTokens, expect_of_not h]
      exact ⟨rfl, rfl⟩
  | unparted hname hcolon =>
      rw [ofTokens, expect_of_kind hname]
      simp only [expect_of_not hcolon]
      exact ⟨rfl, rfl⟩
  | @fields name colon rest fields _ hname hcolon h =>
      have hrest := h.outcome
      rw [ofTokens, expect_of_kind hname]
      simp only [expect_of_kind hcolon]
      cases hread : readFields rest with
      | error left =>
          rw [hread] at hrest
          obtain ⟨rfl, rfl⟩ := hrest
          exact ⟨rfl, rfl⟩
      | ok others =>
          rw [hread] at hrest
          obtain ⟨rfl, rfl⟩ := hrest
          exact ⟨rfl, rfl⟩

/-! ## Every reader has an outcome -/

theorem exists_readsSuffix (tokens : List DefinitionToken) :
    ∃ optional unread, ReadsSuffix tokens optional unread := by
  by_cases h : Starts .optional tokens
  · obtain ⟨token, rest, rfl, htoken⟩ := h.exists_cons
    exact ⟨true, rest, .optional htoken⟩
  · exact ⟨false, tokens, .none h⟩

theorem exists_readsType (tokens : List DefinitionToken) :
    ∃ type unread, ReadsType tokens type unread := by
  induction hlength : tokens.length using Nat.strongRecOn generalizing tokens with
  | _ n ih =>
      by_cases hstarts : Starts .name tokens
      · obtain ⟨name, rest, rfl, hname⟩ := hstarts.exists_cons
        by_cases hopens : Starts .lessThan rest
        · obtain ⟨opening, inside, rfl, hopening⟩ := hopens.exists_cons
          have hshorter : inside.length < n := by
            simp only [List.length_cons] at hlength
            omega
          obtain ⟨argument, unread, hinside⟩ := ih _ hshorter inside rfl
          cases argument with
          | none => exact ⟨none, unread, .unargued hname hopening hinside⟩
          | some argument =>
              by_cases hcloses : Starts .moreThan unread
              · obtain ⟨closing, rest, rfl, hclosing⟩ := hcloses.exists_cons
                obtain ⟨optional, unread, hsuffix⟩ := exists_readsSuffix rest
                exact ⟨_, unread, .applied hname hopening hinside hclosing hsuffix⟩
              · exact ⟨none, unread, .unclosed hname hopening hinside hcloses⟩
        · obtain ⟨optional, unread, hsuffix⟩ := exists_readsSuffix rest
          exact ⟨_, unread, .plain hname hopens hsuffix⟩
      · exact ⟨none, tokens, .unnamed hstarts⟩

theorem exists_readsFields (tokens : List DefinitionToken) :
    ∃ fields unread, ReadsFields tokens fields unread := by
  induction hlength : tokens.length using Nat.strongRecOn generalizing tokens with
  | _ n ih =>
      obtain ⟨type, unread, htype⟩ := exists_readsType tokens
      cases type with
      | none => exact ⟨none, unread, .untyped htype⟩
      | some type =>
          by_cases hstarts : Starts .name unread
          · obtain ⟨name, rest, rfl, hname⟩ := hstarts.exists_cons
            cases rest with
            | nil => exact ⟨_, [], .last htype hname⟩
            | cons next rest =>
                by_cases hcomma : next.kind = .comma
                · obtain ⟨hshorter, -⟩ := htype.gives.ok
                  simp only [List.length_cons] at hshorter
                  obtain ⟨fields, unread, hfields⟩ := ih rest.length (by omega) rest rfl
                  exact ⟨_, unread, .more htype hname hcomma hfields⟩
                · exact ⟨none, _, .unparted htype hname hcomma⟩
          · exact ⟨none, unread, .unnamed htype hstarts⟩

theorem exists_readsDefinition (tokens : List DefinitionToken) :
    ∃ definition unread, ReadsDefinition tokens definition unread := by
  by_cases hstarts : Starts .name tokens
  · obtain ⟨name, rest, rfl, hname⟩ := hstarts.exists_cons
    by_cases hparts : Starts .colon rest
    · obtain ⟨colon, rest, rfl, hcolon⟩ := hparts.exists_cons
      obtain ⟨fields, unread, hfields⟩ := exists_readsFields rest
      exact ⟨_, unread, .fields hname hcolon hfields⟩
    · exact ⟨none, rest, .unparted hname hparts⟩
  · exact ⟨none, tokens, .unnamed hstarts⟩

/-! ## What is behind the next token makes no difference -/

variable {next : DefinitionToken} {rest : List DefinitionToken}

theorem ReadsSuffix.swap {optional : Bool} (h : ReadsSuffix tokens optional (next :: rest)) :
    ∃ front, tokens = front ++ next :: rest ∧
      ∀ rest', ReadsSuffix (front ++ next :: rest') optional (next :: rest') := by
  cases h with
  | none h => exact ⟨[], rfl, fun rest' => .none (by simpa using h)⟩
  | @optional token _ h => exact ⟨[token], rfl, fun rest' => .optional h⟩

theorem ReadsType.swap {type : Option FieldType} (h : ReadsType tokens type (next :: rest)) :
    ∃ front, tokens = front ++ next :: rest ∧
      ∀ rest', ReadsType (front ++ next :: rest') type (next :: rest') := by
  generalize hunread : next :: rest = unread at h
  induction h generalizing next rest with
  | unnamed h =>
      subst hunread
      exact ⟨[], rfl, fun rest' => .unnamed (by simpa using h)⟩
  | @plain name _ _ _ hname hless hsuffix =>
      subst hunread
      obtain ⟨front, rfl, hswap⟩ := hsuffix.swap
      exact ⟨name :: front, rfl, fun rest' =>
        .plain hname (fun hopens => hless ((starts_append_cons rest').mp hopens)) (hswap rest')⟩
  | @unargued name opening _ _ hname hopening _ ih =>
      obtain ⟨front, rfl, hswap⟩ := ih hunread
      exact ⟨name :: opening :: front, rfl, fun rest' => .unargued hname hopening (hswap rest')⟩
  | @unclosed name opening _ _ _ hname hopening _ hclosing ih =>
      obtain ⟨front, rfl, hswap⟩ := ih hunread
      subst hunread
      exact ⟨name :: opening :: front, rfl, fun rest' =>
        .unclosed hname hopening (hswap rest') (by simpa using hclosing)⟩
  | @applied name opening _ _ closing _ _ _ hname hopening _ hclosing hsuffix ih =>
      subst hunread
      obtain ⟨front, rfl, hswap⟩ := ih rfl
      obtain ⟨back, rfl, hback⟩ := hsuffix.swap
      refine ⟨name :: opening :: (front ++ closing :: back), by simp, fun rest' => ?_⟩
      have hinside := hswap (back ++ next :: rest')
      have happlied := ReadsType.applied hname hopening hinside hclosing (hback rest')
      simpa using happlied

theorem ReadsFields.swap {fields : Option (List NodeField)}
    (h : ReadsFields tokens fields (next :: rest)) :
    ∃ front, tokens = front ++ next :: rest ∧
      ∀ rest', ReadsFields (front ++ next :: rest') fields (next :: rest') := by
  generalize hunread : next :: rest = unread at h
  induction h generalizing next rest with
  | untyped htype =>
      subst hunread
      obtain ⟨front, rfl, hswap⟩ := htype.swap
      exact ⟨front, rfl, fun rest' => .untyped (hswap rest')⟩
  | unnamed htype hname =>
      subst hunread
      obtain ⟨front, rfl, hswap⟩ := htype.swap
      exact ⟨front, rfl, fun rest' => .unnamed (hswap rest') (by simpa using hname)⟩
  | last => cases hunread
  | @unparted _ _ name _ _ htype hname hcomma =>
      obtain ⟨rfl, rfl⟩ := List.cons.inj hunread
      obtain ⟨front, rfl, hswap⟩ := htype.swap
      refine ⟨front ++ [name], by simp, fun rest' => ?_⟩
      have hunparted := ReadsFields.unparted (hswap (next :: rest')) hname hcomma
      simpa using hunparted
  | @more _ _ name comma _ _ _ htype hname hcomma _ ih =>
      obtain ⟨back, rfl, hback⟩ := ih hunread
      obtain ⟨front, rfl, hswap⟩ := htype.swap
      refine ⟨front ++ name :: comma :: back, by simp, fun rest' => ?_⟩
      have hmore := ReadsFields.more (hswap (comma :: (back ++ next :: rest'))) hname hcomma
        (hback rest')
      simpa using hmore

theorem ReadsDefinition.swap {definition : Option NodeDefinition}
    (h : ReadsDefinition tokens definition (next :: rest)) :
    ∃ front, tokens = front ++ next :: rest ∧
      ∀ rest', ReadsDefinition (front ++ next :: rest') definition (next :: rest') := by
  cases h with
  | unnamed h => exact ⟨[], rfl, fun rest' => .unnamed (by simpa using h)⟩
  | @unparted name _ hname hcolon =>
      exact ⟨[name], rfl, fun rest' => .unparted hname (by simpa using hcolon)⟩
  | @fields name colon _ _ _ hname hcolon h =>
      obtain ⟨front, rfl, hswap⟩ := h.swap
      exact ⟨name :: colon :: front, rfl, fun rest' => .fields hname hcolon (hswap rest')⟩

end

end LoxLang.NodeDefinition

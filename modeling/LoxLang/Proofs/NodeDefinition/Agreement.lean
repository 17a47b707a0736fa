import LoxLang.Proofs.NodeDefinition.Readers

/-!
# The readers and the language

What the readers read is derivable, and they read all that is.  The tokens in front of the
one where they stop start a definition, and with that one they do not.
-/

namespace LoxLang

def NodeField.hinted (field : NodeField) : String × String :=
  (field.name, field.type.hint)

def NodeDefinition.hints (definition : NodeDefinition) : List (String × String) :=
  definition.fields.map NodeField.hinted

namespace NodeDefinition

section

variable {tokens unread : List DefinitionToken}

/-! ## What is read is derivable -/

theorem named_base (name : String) : Named name (FieldType.base name) := by
  unfold FieldType.base
  split
  · next h => exact h ▸ .object
  · next h => exact .other h

/-- The terminals are the type that was read, or start some type if none was read. -/
def TypeSoFar (terminals : List Terminal) : Option FieldType → Prop
  | some type => IsType terminals type.hint
  | none => ∃ more hint, IsType (terminals ++ more) hint

def FieldsSoFar (terminals : List Terminal) : Option (List NodeField) → Prop
  | some fields => IsFields terminals (fields.map NodeField.hinted)
  | none => ∃ more fields, IsFields (terminals ++ more) fields

def DefinitionSoFar (terminals : List Terminal) : Option NodeDefinition → Prop
  | some definition => IsDefinition terminals definition.name definition.hints
  | none => Viable terminals

theorem isType_applied {name : String} {inside suffix : List Terminal} {argument : FieldType}
    {optional : Bool} (hinside : IsType inside argument.hint)
    (hsuffix : ∀ hint, Suffix suffix hint (FieldType.wrap optional hint)) :
    IsType (.name name :: .lessThan :: (inside ++ .moreThan :: suffix))
      (FieldType.applied name argument optional).hint := by
  rw [FieldType.hint]
  split
  · next h => exact h ▸ .list hinside (hsuffix _)
  · next h => exact .generic h (named_base name) hinside (hsuffix _)

theorem exists_isType_around (name : String) {inside : List Terminal} {inner : String}
    (h : IsType inside inner) :
    ∃ hint, IsType (.name name :: .lessThan :: (inside ++ [.moreThan])) hint := by
  by_cases hlist : name = "List"
  · subst hlist
    exact ⟨_, .list h .none⟩
  · exact ⟨_, .generic hlist (named_base name) h .none⟩

theorem ReadsSuffix.derives {optional : Bool} (h : ReadsSuffix tokens optional unread) :
    ∃ front, tokens = front ++ unread ∧
      ∀ hint, Suffix (front.map terminal) hint (FieldType.wrap optional hint) := by
  cases h with
  | none => exact ⟨[], rfl, fun hint => .none⟩
  | @optional token _ htoken =>
      have hterminal : terminal token = .optional := terminal_of_kind htoken (by decide)
      refine ⟨[token], rfl, fun hint => ?_⟩
      rw [List.map_singleton, hterminal]
      exact .optional

theorem ReadsType.derives {type : Option FieldType} (h : ReadsType tokens type unread) :
    ∃ front, tokens = front ++ unread ∧ TypeSoFar (front.map terminal) type := by
  induction h with
  | unnamed => exact ⟨[], rfl, [.name "T"], _, .plain (named_base "T") .none⟩
  | @plain name _ _ _ hname _ hsuffix =>
      obtain ⟨front, rfl, hderives⟩ := hsuffix.derives
      refine ⟨name :: front, rfl, ?_⟩
      rw [List.map_cons, terminal_of_name hname]
      exact .plain (named_base _) (hderives _)
  | @unargued name opening _ _ hname hopening _ ih =>
      obtain ⟨front, rfl, more, inner, hinside⟩ := ih
      obtain ⟨hint, htype⟩ := exists_isType_around (String.ofList name.text) hinside
      refine ⟨name :: opening :: front, rfl, more ++ [.moreThan], hint, ?_⟩
      have hterminal : terminal opening = .lessThan := terminal_of_kind hopening (by decide)
      simpa [terminal_of_name hname, hterminal] using htype
  | @unclosed name opening _ _ _ hname hopening _ _ ih =>
      obtain ⟨front, rfl, hinside⟩ := ih
      obtain ⟨hint, htype⟩ := exists_isType_around (String.ofList name.text) hinside
      refine ⟨name :: opening :: front, rfl, [.moreThan], hint, ?_⟩
      have hterminal : terminal opening = .lessThan := terminal_of_kind hopening (by decide)
      simpa [terminal_of_name hname, hterminal] using htype
  | @applied name opening _ _ closing _ _ _ hname hopening _ hclosing hsuffix ih =>
      obtain ⟨front, rfl, hinside⟩ := ih
      obtain ⟨back, rfl, hderives⟩ := hsuffix.derives
      refine ⟨name :: opening :: (front ++ closing :: back), by simp, ?_⟩
      have hterminal : terminal opening = .lessThan := terminal_of_kind hopening (by decide)
      have hterminal' : terminal closing = .moreThan := terminal_of_kind hclosing (by decide)
      have htype : IsType _ (FieldType.applied (String.ofList name.text) _ _).hint :=
        isType_applied hinside hderives
      simpa [TypeSoFar, terminal_of_name hname, hterminal, hterminal'] using htype

theorem ReadsFields.derives {fields : Option (List NodeField)}
    (h : ReadsFields tokens fields unread) :
    ∃ front, tokens = front ++ unread ∧ FieldsSoFar (front.map terminal) fields := by
  induction h with
  | untyped htype =>
      obtain ⟨front, rfl, more, hint, hderives⟩ := htype.derives
      refine ⟨front, rfl, more ++ [.name "field"], [("field", hint)], ?_⟩
      rw [← List.append_assoc]
      exact .last hderives
  | unnamed htype =>
      obtain ⟨front, rfl, hderives⟩ := htype.derives
      exact ⟨front, rfl, [.name "field"], _, .last hderives⟩
  | @last _ _ name htype hname =>
      obtain ⟨front, rfl, hderives⟩ := htype.derives
      refine ⟨front ++ [name], by simp, ?_⟩
      rw [List.map_append, List.map_singleton, terminal_of_name hname]
      exact .last hderives
  | @unparted _ type name _ _ htype hname =>
      obtain ⟨front, rfl, hderives⟩ := htype.derives
      refine ⟨front ++ [name], by simp, [], [(String.ofList name.text, type.hint)], ?_⟩
      rw [List.map_append, List.map_singleton, terminal_of_name hname, List.append_nil]
      exact .last hderives
  | @more _ type name comma _ fields _ htype hname hcomma _ ih =>
      obtain ⟨back, rfl, hothers⟩ := ih
      obtain ⟨front, rfl, hderives⟩ := htype.derives
      refine ⟨front ++ name :: comma :: back, by simp, ?_⟩
      have hterminal : terminal comma = .comma := terminal_of_kind hcomma (by decide)
      simp only [List.map_append, List.map_cons, terminal_of_name hname, hterminal]
      cases fields with
      | some fields => exact .more hderives hothers
      | none =>
          obtain ⟨more, others, hmore⟩ := hothers
          refine ⟨more, (String.ofList name.text, type.hint) :: others, ?_⟩
          rw [List.append_assoc]
          exact .more hderives hmore

theorem ReadsDefinition.derives {definition : Option NodeDefinition}
    (h : ReadsDefinition tokens definition unread) :
    ∃ front, tokens = front ++ unread ∧ DefinitionSoFar (front.map terminal) definition := by
  have hfield : IsFields [.name "T", .name "field"] [("field", FieldType.base "T")] :=
    .last (.plain (named_base "T") .none)
  cases h with
  | unnamed => exact ⟨[], rfl, _, "N", _, .start hfield⟩
  | @unparted name _ hname =>
      refine ⟨[name], rfl, [.colon, .name "T", .name "field"], String.ofList name.text,
        [("field", FieldType.base "T")], ?_⟩
      rw [List.map_singleton, terminal_of_name hname]
      exact .start hfield
  | @fields name colon _ fields _ hname hcolon h =>
      obtain ⟨front, rfl, hderives⟩ := h.derives
      refine ⟨name :: colon :: front, rfl, ?_⟩
      have hterminal : terminal colon = .colon := terminal_of_kind hcolon (by decide)
      simp only [List.map_cons, terminal_of_name hname, hterminal]
      cases fields with
      | some fields => exact .start hderives
      | none =>
          obtain ⟨more, others, hmore⟩ := hderives
          exact ⟨more, _, _, .start hmore⟩

/-! ## All that is derivable is read -/

theorem Suffix.reads {suffix : List Terminal} {hint hint' : String} (h : Suffix suffix hint hint')
    {front rest : List DefinitionToken} (hfront : front.map terminal = suffix)
    (hrest : ¬Starts .optional rest) :
    ∃ optional, FieldType.wrap optional hint = hint' ∧
      ReadsSuffix (front ++ rest) optional rest := by
  cases h with
  | none =>
      obtain rfl := List.map_eq_nil_iff.mp hfront
      exact ⟨false, rfl, .none hrest⟩
  | optional =>
      obtain ⟨token, rfl, htoken⟩ := List.map_eq_singleton_iff.mp hfront
      exact ⟨true, rfl, .optional (kind_of_terminal htoken)⟩

theorem Named.base_eq {name hint : String} (h : Named name hint) :
    FieldType.base name = hint := by
  cases h with
  | object => rfl
  | other h => exact if_neg h

theorem exists_applied {name : String} {inside suffix : List Terminal}
    {front : List DefinitionToken}
    (h : front.map terminal =
      .name name :: .lessThan :: (inside ++ .moreThan :: suffix)) :
    ∃ head opening argument closing back,
      front = head :: opening :: (argument ++ closing :: back) ∧
        head.kind = .name ∧ String.ofList head.text = name ∧ opening.kind = .lessThan ∧
        argument.map terminal = inside ∧ closing.kind = .moreThan ∧
        back.map terminal = suffix := by
  obtain ⟨head, front, rfl, hhead, hfront⟩ := List.map_eq_cons_iff.mp h
  obtain ⟨opening, front, rfl, hopening, hfront⟩ := List.map_eq_cons_iff.mp hfront
  obtain ⟨argument, front, rfl, hargument, hfront⟩ := List.map_eq_append_iff.mp hfront
  obtain ⟨closing, back, rfl, hclosing, hback⟩ := List.map_eq_cons_iff.mp hfront
  exact ⟨head, opening, argument, closing, back, rfl, kind_of_terminal hhead,
    text_of_terminal hhead, kind_of_terminal hopening, hargument, kind_of_terminal hclosing, hback⟩

theorem IsType.reads {terminals : List Terminal} {hint : String} (h : IsType terminals hint)
    {front rest : List DefinitionToken} (hfront : front.map terminal = terminals)
    (hargument : ¬Starts .lessThan rest) (hoptional : ¬Starts .optional rest) :
    ∃ type, type.hint = hint ∧ ReadsType (front ++ rest) (some type) rest := by
  induction h generalizing front rest with
  | @plain name head suffix _ hnamed hsuffix =>
      obtain ⟨token, back, rfl, htoken, hback⟩ := List.map_eq_cons_iff.mp hfront
      obtain ⟨optional, hwrap, hreads⟩ := hsuffix.reads hback hoptional
      have hunargued : ¬Starts .lessThan (back ++ rest) := by
        cases hsuffix with
        | none =>
            obtain rfl := List.map_eq_nil_iff.mp hback
            exact hargument
        | optional =>
            obtain ⟨mark, rfl, hmark⟩ := List.map_eq_singleton_iff.mp hback
            simp [kind_of_terminal hmark, Terminal.kind]
      refine ⟨_, ?_, .plain (kind_of_terminal htoken) hunargued hreads⟩
      rw [FieldType.hint, text_of_terminal htoken, hnamed.base_eq, hwrap]
  | list _ hsuffix ih =>
      obtain ⟨head, opening, argument, closing, back, rfl, hhead, htext, hopening, hinside,
        hclosing, hback⟩ := exists_applied hfront
      obtain ⟨optional, hwrap, hreads⟩ := hsuffix.reads hback hoptional
      obtain ⟨type, htype, hargued⟩ := @ih argument (closing :: (back ++ rest)) hinside
        (by simp [hclosing]) (by simp [hclosing])
      have happlied := ReadsType.applied hhead hopening hargued hclosing hreads
      refine ⟨_, ?_, by simpa using happlied⟩
      rw [FieldType.hint, htext, if_pos rfl, htype, hwrap]
  | generic hlist hnamed _ hsuffix ih =>
      obtain ⟨head, opening, argument, closing, back, rfl, hhead, htext, hopening, hinside,
        hclosing, hback⟩ := exists_applied hfront
      obtain ⟨optional, hwrap, hreads⟩ := hsuffix.reads hback hoptional
      obtain ⟨type, htype, hargued⟩ := @ih argument (closing :: (back ++ rest)) hinside
        (by simp [hclosing]) (by simp [hclosing])
      have happlied := ReadsType.applied hhead hopening hargued hclosing hreads
      refine ⟨_, ?_, by simpa using happlied⟩
      rw [FieldType.hint, htext, if_neg hlist, hnamed.base_eq, htype, hwrap]

theorem IsType.reads_named {terminals : List Terminal} {hint : String} (h : IsType terminals hint)
    {front : List DefinitionToken} (hfront : front.map terminal = terminals)
    {name : DefinitionToken} (hname : name.kind = .name) (rest : List DefinitionToken) :
    ∃ type, type.hint = hint ∧
      ReadsType (front ++ name :: rest) (some type) (name :: rest) :=
  h.reads hfront (by simp [hname]) (by simp [hname])

theorem IsFields.reads {terminals : List Terminal} {hints : List (String × String)}
    (h : IsFields terminals hints) (hterminals : tokens.map terminal = terminals) :
    ∃ fields : List NodeField, fields.map NodeField.hinted = hints ∧
      ReadsFields tokens (some fields) [] := by
  induction h generalizing tokens with
  | last htype =>
      obtain ⟨front, back, rfl, hfront, hback⟩ := List.map_eq_append_iff.mp hterminals
      obtain ⟨name, rfl, hname⟩ := List.map_eq_singleton_iff.mp hback
      obtain ⟨type, rfl, hreads⟩ := htype.reads_named hfront (kind_of_terminal hname) []
      refine ⟨_, ?_, .last hreads (kind_of_terminal hname)⟩
      rw [List.map_singleton, NodeField.hinted, text_of_terminal hname]
  | more htype _ ih =>
      obtain ⟨front, back, rfl, hfront, hback⟩ := List.map_eq_append_iff.mp hterminals
      obtain ⟨name, back, rfl, hname, hback⟩ := List.map_eq_cons_iff.mp hback
      obtain ⟨comma, others, rfl, hcomma, hothers⟩ := List.map_eq_cons_iff.mp hback
      obtain ⟨type, rfl, hreads⟩ :=
        htype.reads_named hfront (kind_of_terminal hname) (comma :: others)
      obtain ⟨fields, rfl, hfields⟩ := ih hothers
      refine ⟨_, ?_, .more hreads (kind_of_terminal hname) (kind_of_terminal hcomma) hfields⟩
      rw [List.map_cons, NodeField.hinted, text_of_terminal hname]

theorem IsDefinition.reads {terminals : List Terminal} {name : String}
    {hints : List (String × String)} (h : IsDefinition terminals name hints)
    (hterminals : tokens.map terminal = terminals) :
    ∃ definition : NodeDefinition, definition.name = name ∧ definition.hints = hints ∧
      ReadsDefinition tokens (some definition) [] := by
  cases h with
  | start h =>
      obtain ⟨name, rest, rfl, hname, hrest⟩ := List.map_eq_cons_iff.mp hterminals
      obtain ⟨colon, rest, rfl, hcolon, hrest⟩ := List.map_eq_cons_iff.mp hrest
      obtain ⟨fields, rfl, hfields⟩ := h.reads hrest
      exact ⟨_, text_of_terminal hname, rfl,
        .fields (kind_of_terminal hname) (kind_of_terminal hcolon) hfields⟩

/-! ## Definitions of tokens -/

theorem Outcome.ok {α : Type} {outcome : Except (List DefinitionToken) α} {a : α}
    {left : List DefinitionToken} (h : Outcome outcome (some a) left) : outcome = .ok a := by
  cases outcome with
  | error unread => cases h.1
  | ok b => exact congrArg Except.ok (Option.some.inj h.1).symm

theorem Outcome.error {α : Type} {outcome : Except (List DefinitionToken) α}
    {left : List DefinitionToken} (h : Outcome outcome none left) : outcome = .error left := by
  cases outcome with
  | error unread => exact congrArg Except.error h.2
  | ok b => cases h.1

theorem ofTokens_derives {definition : NodeDefinition} (h : ofTokens tokens = .ok definition) :
    IsDefinition (tokens.map terminal) definition.name definition.hints := by
  obtain ⟨read, unread, hreads⟩ := exists_readsDefinition tokens
  have houtcome := hreads.outcome
  rw [h] at houtcome
  obtain ⟨rfl, rfl⟩ := houtcome
  obtain ⟨front, rfl, hderives⟩ := hreads.derives
  rw [List.append_nil]
  exact hderives

theorem exists_ofTokens {name : String} {hints : List (String × String)}
    (h : IsDefinition (tokens.map terminal) name hints) :
    ∃ definition, ofTokens tokens = .ok definition ∧ definition.name = name ∧
      definition.hints = hints := by
  obtain ⟨definition, hname, hhints, hreads⟩ := h.reads rfl
  exact ⟨definition, hreads.outcome.ok, hname, hhints⟩

/-- The tokens in front of the one that is blamed start a definition, and not with that one. -/
theorem ofTokens_blames (h : ofTokens tokens = .error unread) :
    ∃ front, tokens = front ++ unread ∧ Viable (front.map terminal) ∧
      ∀ next rest, unread = next :: rest → ¬Viable ((front ++ [next]).map terminal) := by
  obtain ⟨read, left, hreads⟩ := exists_readsDefinition tokens
  have houtcome := hreads.outcome
  rw [h] at houtcome
  obtain ⟨rfl, rfl⟩ := houtcome
  obtain ⟨front, rfl, hviable⟩ := hreads.derives
  refine ⟨front, rfl, hviable, ?_⟩
  rintro next rest rfl ⟨more, name, hints, hdefinition⟩
  -- Followed by what makes it a definition, the same tokens would be blamed all the same.
  obtain ⟨back, rfl⟩ := exists_terminals more
  rw [← List.map_append, List.append_assoc] at hdefinition
  obtain ⟨definition, hread, -⟩ := exists_ofTokens hdefinition
  obtain ⟨front', hsame, hswap⟩ := hreads.swap
  obtain rfl := List.append_cancel_right hsame
  have hblamed := (hswap back).outcome.error
  rw [List.singleton_append, hblamed] at hread
  cases hread

end

end NodeDefinition

end LoxLang

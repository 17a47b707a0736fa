import LoxLang.Proofs.NodeDefinition.Definitions

/-!
# The characters of annotations

The names of a definition have no character of ASCII that no identifier has, and its
annotations have brackets, commas, blanks and dots besides.
-/

namespace LoxLang

/-- Every character of ASCII in the text is a part of names or one of the marks; an identifier
has no marks. -/
def HasOnly (marks : List Char) (text : String) : Prop :=
  ∀ c ∈ text.toList, c.toNat < 128 → DefinitionToken.isNamePart c = true ∨ c ∈ marks

instance (marks : List Char) (text : String) : Decidable (HasOnly marks text) :=
  inferInstanceAs (Decidable (∀ c ∈ text.toList, _))

section

variable {marks : List Char} {text : String}

theorem HasOnly.not_mem (h : HasOnly marks text) (c : Char)
    (hc : c.toNat < 128 ∧ DefinitionToken.isNamePart c = false ∧ c ∉ marks) : c ∉ text.toList := by
  intro hmem
  have := h c hmem hc.1
  simp_all

theorem HasOnly.mono {marks' : List Char} (h : HasOnly marks text) (hsub : marks ⊆ marks') :
    HasOnly marks' text :=
  fun c hmem hc => (h c hmem hc).imp_right (hsub ·)

theorem hasOnly_append {back : String} :
    HasOnly marks (text ++ back) ↔ HasOnly marks text ∧ HasOnly marks back := by
  simp only [HasOnly, String.toList_append, List.forall_mem_append]

end

namespace NodeDefinition

open DefinitionToken

def hintMarks : List Char :=
  ['[', ']', ',', ' ', '.']

def Unmarked (terminals : List Terminal) : Prop :=
  ∀ name, Terminal.name name ∈ terminals → HasOnly [] name

theorem unmarked_append {front back : List Terminal} :
    Unmarked (front ++ back) ↔ Unmarked front ∧ Unmarked back := by
  simp only [Unmarked, List.mem_append, or_imp, forall_and]

theorem unmarked_cons {t : Terminal} {rest : List Terminal} :
    Unmarked (t :: rest) ↔ (∀ name, .name name = t → HasOnly [] name) ∧ Unmarked rest := by
  simp only [Unmarked, List.mem_cons, or_imp, forall_and]

theorem unmarked_name {name : String} {rest : List Terminal} :
    Unmarked (.name name :: rest) ↔ HasOnly [] name ∧ Unmarked rest := by
  simp [unmarked_cons]

theorem unmarked_of_lexes {before text left : List Char} {tokens : List Occurrence}
    (h : Lexes before text tokens left) : Unmarked (terminals tokens) := by
  induction h with
  | done => simp [Unmarked, terminals]
  | stop => simp [Unmarked, terminals]
  | skip _ _ ih => exact ih
  | @name before first part rest tokens left hfirst hpart _ _ ih =>
      have hname : HasOnly [] (String.ofList (first :: part)) := by
        intro c hmem _
        rw [String.toList_ofList] at hmem
        rcases List.mem_cons.mp hmem with rfl | hc
        · simp [isNamePart, hfirst]
        · simp [hpart c hc]
      exact unmarked_name.mpr ⟨hname, ih⟩
  | mark hmark _ ih =>
      refine unmarked_cons.mpr ⟨fun name hname => ?_, ih⟩
      have hkind := kind_of_terminal hname.symm
      rcases mark?_cases hmark with rfl | rfl | rfl | rfl | rfl <;> cases hmark <;> cases hkind

/-! ## Annotations -/

theorem hasOnly_hintMarks :
    ∀ text ∈ ["Any", "Optional[", "Tuple[", ", ...]", "[", "]"], HasOnly hintMarks text := by
  simp [HasOnly, hintMarks, isNamePart, isNameStart]

theorem Named.hasOnly {name hint : String} (h : Named name hint) (hname : HasOnly [] name) :
    HasOnly hintMarks hint := by
  cases h with
  | object => exact hasOnly_hintMarks _ (by simp)
  | other => exact hname.mono (by simp)

theorem Suffix.hasOnly {suffix : List Terminal} {hint hint' : String}
    (h : Suffix suffix hint hint') (hhint : HasOnly hintMarks hint) : HasOnly hintMarks hint' := by
  cases h with
  | none => exact hhint
  | optional =>
      simp [hasOnly_append, hhint, hasOnly_hintMarks]

theorem IsType.hasOnly {type : List Terminal} {hint : String} (h : IsType type hint)
    (hnames : Unmarked type) : HasOnly hintMarks hint := by
  induction h with
  | plain hnamed hsuffix =>
      exact hsuffix.hasOnly (hnamed.hasOnly (unmarked_name.mp hnames).1)
  | list _ hsuffix ih =>
      simp only [unmarked_cons, unmarked_append] at hnames
      have hinner := ih hnames.2.2.1
      exact hsuffix.hasOnly (by simp [hasOnly_append, hinner, hasOnly_hintMarks])
  | generic _ hnamed _ hsuffix ih =>
      simp only [unmarked_cons, unmarked_append] at hnames
      have hhead := hnamed.hasOnly (hnames.1 _ rfl)
      have hinner := ih hnames.2.2.1
      exact hsuffix.hasOnly (by simp [hasOnly_append, hhead, hinner, hasOnly_hintMarks])

def Fielded (field : String × String) : Prop :=
  HasOnly [] field.1 ∧ HasOnly hintMarks field.2

theorem IsFields.fielded {terminals : List Terminal} {fields : List (String × String)}
    (h : IsFields terminals fields) (hnames : Unmarked terminals) :
    ∀ field ∈ fields, Fielded field := by
  induction h with
  | last htype =>
      simp only [unmarked_append, unmarked_name] at hnames
      simpa using ⟨hnames.2.1, htype.hasOnly hnames.1⟩
  | more htype _ ih =>
      simp only [unmarked_append, unmarked_cons] at hnames
      simpa [Fielded, hnames.2.1 _ rfl, htype.hasOnly hnames.1] using ih hnames.2.2.2

theorem fielded_of_ofText {text : String} {definition : NodeDefinition}
    (h : ofText text = .ok definition) :
    HasOnly [] definition.name ∧ ∀ field ∈ definition.hints, Fielded field := by
  obtain ⟨tokens, hlexes, hdefinition⟩ := lexes_of_ofText h
  have hnames := unmarked_of_lexes hlexes
  generalize terminals tokens = found at hdefinition hnames
  cases hdefinition with
  | start hfields =>
      simp only [unmarked_cons] at hnames
      exact ⟨hnames.1 _ rfl, hfields.fielded hnames.2.2⟩

end NodeDefinition

end LoxLang

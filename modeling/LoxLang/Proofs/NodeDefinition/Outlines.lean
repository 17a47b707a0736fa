import Mathlib.Data.List.Forall2
import LoxLang.NodeDefinition.Module
import LoxLang.Proofs.NodeDefinition.Annotations
import LoxLang.Proofs.Text.Lines

/-!
# The outline of a module of node classes

The text of a module is read back line by line: the lines of the fields stand under the line of
their class, and the lines of the derived classes under the line of their base class.  The
reading gives the families that the text was made of, with every class, field and annotation.
-/

namespace LoxLang

structure ClassOutline where
  name : String
  base : String
  fields : List (String × String)
  deriving DecidableEq, Repr

structure FamilyOutline where
  base : String
  classes : List ClassOutline
  deriving DecidableEq, Repr

/-! ## The reader -/

inductive ModuleLine where
  | base (name : String)
  | derived (name base : String)
  | field (name hint : String)
  | other
  deriving DecidableEq, Repr

namespace ModuleLine

def endsClassName (c : Char) : Bool :=
  c == '(' || c == ':'

def ofClass (text : List Char) : ModuleLine :=
  let name := String.ofList (text.takeWhile fun c => !endsClassName c)
  match text.dropWhile fun c => !endsClassName c with
  | '(' :: rest => .derived name (String.ofList (rest.takeWhile (· != ')')))
  | _ => .base name

def ofField (text : List Char) : ModuleLine :=
  let name := String.ofList (text.takeWhile (· != ':'))
  .field name (String.ofList ((text.dropWhile (· != ':')).drop 2))

/-- A line with a quotation mark in it is no field. -/
def ofText (line : List Char) : ModuleLine :=
  if "class ".toList.isPrefixOf line then ofClass (line.drop 6)
  else if "    ".toList.isPrefixOf line && !line.contains '\"' then ofField (line.drop 4)
  else .other

end ModuleLine

/-- What was read of a module from some line on: fields of a class and classes of a family whose
own lines are further up, and families. -/
structure ModuleReading where
  fields : List (String × String) := []
  classes : List ClassOutline := []
  families : List FamilyOutline := []

namespace ModuleReading

def above (line : ModuleLine) (reading : ModuleReading) : ModuleReading :=
  match line with
  | .base name => ⟨[], [], ⟨name, reading.classes⟩ :: reading.families⟩
  | .derived name base =>
      { reading with fields := [], classes := ⟨name, base, reading.fields⟩ :: reading.classes }
  | .field name hint => { reading with fields := (name, hint) :: reading.fields }
  | .other => reading

/-- The lines are read from the last one up. -/
def ofLines (lines : List (List Char)) (below : ModuleReading) : ModuleReading :=
  lines.foldr (fun line reading => reading.above (.ofText line)) below

end ModuleReading

def moduleOutline (text : String) : List FamilyOutline :=
  (ModuleReading.ofLines (Lines.ofText text.toList) {}).families

/-! ## Lines read one by one -/

namespace ModuleLine

variable {name base hint : String}

theorem cut_before {p : Char → Bool} {front : List Char} (hfront : ∀ a ∈ front, p a = true)
    (c : Char) (hc : p c = false) (back : List Char) :
    (front ++ c :: back).takeWhile p = front ∧ (front ++ c :: back).dropWhile p = c :: back := by
  simp [List.takeWhile_append_of_pos hfront, List.dropWhile_append_of_pos hfront, hc]

theorem cut_at {front : List Char} {c : Char} (hfront : c ∉ front) (back : List Char) :
    (front ++ c :: back).takeWhile (· != c) = front ∧
      (front ++ c :: back).dropWhile (· != c) = c :: back := by
  refine cut_before (fun a ha => ?_) c (by simp) back
  rw [bne_iff_ne]
  rintro rfl
  exact hfront ha

theorem not_endsClassName (h : HasOnly [] name) : ∀ c ∈ name.toList, !endsClassName c := by
  have hopening := h.not_mem '(' (by decide)
  have hcolon := h.not_mem ':' (by decide)
  intro c hc
  have : c ≠ '(' ∧ c ≠ ':' := ⟨fun heq => hopening (heq ▸ hc), fun heq => hcolon (heq ▸ hc)⟩
  simp [endsClassName, this]

theorem ofText_base (h : HasOnly [] name) :
    ofText ("class " ++ name ++ ":").toList = .base name := by
  have htext : ("class " ++ name ++ ":").toList = "class ".toList ++ (name.toList ++ [':']) := by
    simp
  obtain ⟨htake, hdrop⟩ := cut_before (not_endsClassName h) ':' rfl []
  rw [htext]
  simp [ofText, ofClass, htake, hdrop]

theorem ofText_derived (h : HasOnly [] name) (hbase : HasOnly [] base) :
    ofText ("class " ++ name ++ "(" ++ base ++ "):").toList = .derived name base := by
  have htext : ("class " ++ name ++ "(" ++ base ++ "):").toList =
      "class ".toList ++ (name.toList ++ '(' :: (base.toList ++ ')' :: [':'])) := by
    simp
  obtain ⟨htake, hdrop⟩ :=
    cut_before (not_endsClassName h) '(' rfl (base.toList ++ ')' :: [':'])
  have hclosing := (cut_at (hbase.not_mem ')' (by decide)) [':']).1
  rw [htext]
  simp [ofText, ofClass, htake, hdrop, hclosing]

theorem ofText_field (h : HasOnly [] name) (hhint : HasOnly NodeDefinition.hintMarks hint) :
    ofText ("    " ++ name ++ ": " ++ hint).toList = .field name hint := by
  have htext : ("    " ++ name ++ ": " ++ hint).toList =
      "    ".toList ++ (name.toList ++ ':' :: ' ' :: hint.toList) := by
    simp
  have hname := h.not_mem '\"' (by decide)
  have hquoted := hhint.not_mem '\"' (by decide)
  obtain ⟨htake, hdrop⟩ := cut_at (h.not_mem ':' (by decide)) (' ' :: hint.toList)
  rw [htext]
  simp [ofText, ofField, htake, hdrop, hname, hquoted]

theorem ofText_docstring (base : String) :
    ofText ("    \"\"\"Base class of the " ++ base ++ " node family.\"\"\"").toList = .other := by
  simp [ofText]

theorem ofText_header : ∀ line ∈ NodeFamily.header, ofText line.toList = .other := by
  decide +kernel

end ModuleLine

namespace ModuleReading

variable {base : String}

def ofTexts (lines : List String) (below : ModuleReading) : ModuleReading :=
  ofLines (lines.map String.toList) below

theorem ofTexts_cons (line : String) (lines : List String) (below : ModuleReading) :
    ofTexts (line :: lines) below = (ofTexts lines below).above (.ofText line.toList) :=
  rfl

theorem ofTexts_append (upper lower : List String) (below : ModuleReading) :
    ofTexts (upper ++ lower) below = ofTexts upper (ofTexts lower below) := by
  simp [ofTexts, ofLines]

theorem ofTexts_other {lines : List String}
    (h : ∀ line ∈ lines, ModuleLine.ofText line.toList = .other) (below : ModuleReading) :
    ofTexts lines below = below := by
  induction lines with
  | nil => rfl
  | cons line lines ih =>
      obtain ⟨hline, hlines⟩ := List.forall_mem_cons.mp h
      rw [ofTexts_cons, ih hlines, hline]
      rfl

theorem ofTexts_fields {fields : List NodeField}
    (h : ∀ field ∈ fields.map NodeField.hinted, NodeDefinition.Fielded field)
    (below : ModuleReading) :
    ofTexts (fields.map fun field => "    " ++ field.name ++ ": " ++ field.type.hint) below =
      { below with fields := fields.map NodeField.hinted ++ below.fields } := by
  induction fields with
  | nil => rfl
  | cons field fields ih =>
      obtain ⟨⟨hname, hhint⟩, hfields⟩ := List.forall_mem_cons.mp h
      have hfield : ModuleLine.ofText ("    " ++ field.name ++ ": " ++ field.type.hint).toList =
          .field field.name field.type.hint := ModuleLine.ofText_field hname hhint
      rw [List.map_cons, ofTexts_cons, ih hfields, hfield]
      rfl

theorem ofTexts_decorator (below : ModuleReading) :
    ofTexts ["", "", "@dataclass(frozen=True)"] below = below :=
  ofTexts_other (by decide +kernel) below

theorem ofTexts_class {definition : NodeDefinition} (hbase : HasOnly [] base)
    (hname : HasOnly [] definition.name)
    (hfields : ∀ field ∈ definition.hints, NodeDefinition.Fielded field)
    (classes : List ClassOutline) (families : List FamilyOutline) :
    ofTexts (NodeFamily.classLines base definition) ⟨[], classes, families⟩ =
      ⟨[], ⟨definition.name, base, definition.hints⟩ :: classes, families⟩ := by
  have hlines (fields : List String) :
      ["", "", "@dataclass(frozen=True)", "class " ++ definition.name ++ "(" ++ base ++ "):"] ++
        fields = ["", "", "@dataclass(frozen=True)"] ++
        (("class " ++ definition.name ++ "(" ++ base ++ "):") :: fields) := rfl
  rw [NodeFamily.classLines, hlines, ofTexts_append, ofTexts_decorator, ofTexts_cons,
    ofTexts_fields hfields, ModuleLine.ofText_derived hname hbase]
  simp [above, NodeDefinition.hints]

theorem ofTexts_base (hbase : HasOnly [] base) (classes : List ClassOutline)
    (families : List FamilyOutline) :
    ofTexts (NodeFamily.baseLines base) ⟨[], classes, families⟩ =
      ⟨[], [], ⟨base, classes⟩ :: families⟩ := by
  have hlines : NodeFamily.baseLines base = ["", "", "@dataclass(frozen=True)"] ++
      ["class " ++ base ++ ":", "    \"\"\"Base class of the " ++ base ++ " node family.\"\"\""] :=
    rfl
  rw [hlines, ofTexts_append, ofTexts_decorator, ofTexts_cons, ofTexts_cons,
    ModuleLine.ofText_docstring, ModuleLine.ofText_base hbase]
  rfl

end ModuleReading

/-! ## Texts that are read one by one -/

def FirstFailure {α β ε : Type} (read : α → Except ε β) (texts : List α) (error : ε) : Prop :=
  ∃ before text after, texts = before ++ text :: after ∧
    (∀ other ∈ before, ∃ b, read other = .ok b) ∧ read text = .error error

section

variable {α β ε : Type} {read : α → Except ε β} {text : α} {texts : List α} {error : ε}

theorem firstFailure_cons : FirstFailure read (text :: texts) error ↔
    read text = .error error ∨ (∃ b, read text = .ok b) ∧ FirstFailure read texts error := by
  constructor
  · rintro ⟨before, refused, after, htexts, hbefore, hrefused⟩
    cases before with
    | nil =>
        obtain ⟨rfl, rfl⟩ := List.cons.inj htexts
        exact .inl hrefused
    | cons first before =>
        obtain ⟨rfl, rfl⟩ := List.cons.inj htexts
        obtain ⟨hfirst, hbefore⟩ := List.forall_mem_cons.mp hbefore
        exact .inr ⟨hfirst, before, refused, after, rfl, hbefore, hrefused⟩
  · rintro (hrefused | ⟨hfirst, before, refused, after, rfl, hbefore, hrefused⟩)
    · exact ⟨[], text, texts, rfl, by simp, hrefused⟩
    · exact ⟨text :: before, refused, after, rfl, List.forall_mem_cons.mpr ⟨hfirst, hbefore⟩,
        hrefused⟩

theorem exists_firstFailure (hmem : text ∈ texts) (h : ∀ b, read text ≠ .ok b) :
    ∃ error, FirstFailure read texts error := by
  induction texts with
  | nil => simp at hmem
  | cons first texts ih =>
      cases hfirst : read first with
      | error e => exact ⟨e, firstFailure_cons.mpr (.inl hfirst)⟩
      | ok b =>
          have hne : text ≠ first := fun heq => h b (heq ▸ hfirst)
          obtain ⟨error, hrest⟩ := ih (List.mem_of_ne_of_mem hne hmem)
          exact ⟨error, firstFailure_cons.mpr (.inr ⟨⟨b, hfirst⟩, hrest⟩)⟩

theorem mapM_eq_error_iff : texts.mapM read = .error error ↔ FirstFailure read texts error := by
  induction texts with
  | nil => simp [FirstFailure, pure, Except.pure]
  | cons text texts ih =>
      rw [List.mapM_cons, firstFailure_cons, ← ih]
      cases hread : read text with
      | error e => simp [bind, Except.bind]
      | ok b => cases hrest : texts.mapM read <;> simp [bind, Except.bind, pure, Except.pure]

theorem mapM_eq_ok_iff {results : List β} :
    texts.mapM read = .ok results ↔
      List.Forall₂ (fun text b => read text = .ok b) texts results := by
  induction texts generalizing results with
  | nil => cases results <;> simp [pure, Except.pure]
  | cons text texts ih =>
      rw [List.mapM_cons]
      cases hread : read text with
      | error e => cases results <;> simp [bind, Except.bind, hread]
      | ok b =>
          cases hrest : texts.mapM read with
          | error e => cases results <;> simp [bind, Except.bind, hread, ← ih, hrest]
          | ok bs =>
              cases results <;> simp [bind, Except.bind, pure, Except.pure, hread, ← ih, hrest]

theorem exists_read_of_mem {results : List β} (h : texts.mapM read = .ok results) :
    ∀ b ∈ results, ∃ text ∈ texts, read text = .ok b := by
  rw [mapM_eq_ok_iff] at h
  induction h with
  | nil => simp
  | cons hread _ ih =>
      simp only [List.forall_mem_cons, List.exists_mem_cons_iff]
      exact ⟨.inl hread, fun b hb => .inr (ih b hb)⟩

theorem exists_mapM_eq_ok (h : ∀ text ∈ texts, ∃ b, read text = .ok b) :
    ∃ results, texts.mapM read = .ok results := by
  cases hread : texts.mapM read with
  | ok results => exact ⟨results, rfl⟩
  | error e =>
      obtain ⟨before, text, after, rfl, -, hrefused⟩ := mapM_eq_error_iff.mp hread
      obtain ⟨b, hb⟩ := h text (by simp)
      rw [hrefused] at hb
      cases hb

end

/-! ## Families and their outlines -/

def ClassOutline.IsOf (base text : String) (outline : ClassOutline) : Prop :=
  ∃ definition, NodeDefinition.ofText text = .ok definition ∧
    outline = ⟨definition.name, base, definition.hints⟩

def FamilyOutline.IsOf (family : NodeFamily) (outline : FamilyOutline) : Prop :=
  outline.base = family.base ∧
    List.Forall₂ (ClassOutline.IsOf family.base) family.definitions outline.classes

namespace NodeFamily

structure WellFormed (family : NodeFamily) : Prop where
  base : HasOnly [] family.base
  definitions :
    ∀ text ∈ family.definitions, ∃ definition, NodeDefinition.ofText text = .ok definition

end NodeFamily

namespace ModuleReading

theorem ofTexts_classes {base : String} (hbase : HasOnly [] base) {texts : List String}
    {definitions : List NodeDefinition}
    (h : List.Forall₂ (fun text definition => NodeDefinition.ofText text = .ok definition) texts
      definitions) (families : List FamilyOutline) :
    ∃ classes, List.Forall₂ (ClassOutline.IsOf base) texts classes ∧
      ofTexts (definitions.flatMap (NodeFamily.classLines base)) ⟨[], [], families⟩ =
        ⟨[], classes, families⟩ := by
  induction h with
  | nil => exact ⟨[], .nil, rfl⟩
  | cons hread _ ih =>
      obtain ⟨classes, hclasses, hlines⟩ := ih
      obtain ⟨hname, hfields⟩ := NodeDefinition.fielded_of_ofText hread
      refine ⟨_, .cons ⟨_, hread, rfl⟩ hclasses, ?_⟩
      rw [List.flatMap_cons, ofTexts_append, hlines, ofTexts_class hbase hname hfields]

theorem ofTexts_family {family : NodeFamily} (h : family.WellFormed) {lines : List String}
    (hlines : family.lines = .ok lines) (families : List FamilyOutline) :
    ∃ outline, FamilyOutline.IsOf family outline ∧
      ofTexts lines ⟨[], [], families⟩ = ⟨[], [], outline :: families⟩ := by
  obtain ⟨definitions, hread⟩ := exists_mapM_eq_ok h.definitions
  obtain ⟨classes, hclasses, hbelow⟩ := ofTexts_classes h.base (mapM_eq_ok_iff.mp hread) families
  rw [NodeFamily.lines, hread] at hlines
  cases hlines
  refine ⟨⟨family.base, classes⟩, ⟨rfl, hclasses⟩, ?_⟩
  rw [ofTexts_append, hbelow, ofTexts_base h.base]

theorem ofTexts_families {families : List NodeFamily} (h : ∀ family ∈ families, family.WellFormed)
    {body : List (List String)} (hbody : families.mapM NodeFamily.lines = .ok body) :
    ∃ outlines, List.Forall₂ FamilyOutline.IsOf families outlines ∧
      ofTexts body.flatten {} = ⟨[], [], outlines⟩ := by
  rw [mapM_eq_ok_iff] at hbody
  induction hbody with
  | nil => exact ⟨[], .nil, rfl⟩
  | cons hlines _ ih =>
      obtain ⟨hfamily, hfamilies⟩ := List.forall_mem_cons.mp h
      obtain ⟨outlines, houtlines, hbelow⟩ := ih hfamilies
      obtain ⟨outline, houtline, hread⟩ := ofTexts_family hfamily hlines outlines
      refine ⟨outline :: outlines, .cons houtline houtlines, ?_⟩
      rw [List.flatten_cons, ofTexts_append, hbelow, hread]

end ModuleReading

/-! ## The lines of the text -/

def OneLine (text : String) : Prop :=
  ∀ c ∈ text.toList, Lines.Plain .universal c

instance (text : String) : Decidable (OneLine text) :=
  decidable_of_iff ((text.toList.all fun c => c != '\n' && c != '\r') = true)
    (by simp [OneLine, Lines.Plain])

theorem oneLine_append {front back : String} :
    OneLine (front ++ back) ↔ OneLine front ∧ OneLine back := by
  simp only [OneLine, String.toList_append, List.forall_mem_append]

theorem HasOnly.oneLine {marks : List Char} {text : String} (h : HasOnly marks text)
    (hmarks : '\n' ∉ marks ∧ '\r' ∉ marks) : OneLine text := by
  intro c hc
  refine ⟨?_, ?_⟩
  · rintro rfl
    exact h.not_mem '\n' ⟨by decide, by decide, hmarks.1⟩ hc
  · rintro - rfl
    exact h.not_mem '\r' ⟨by decide, by decide, hmarks.2⟩ hc

namespace NodeFamily

theorem oneLine_header : ∀ line ∈ header, OneLine line := by
  decide +kernel

theorem oneLine_fixed : ∀ text ∈ ["", "@dataclass(frozen=True)", "class ", ":", "(", "):", "    ",
    ": ", "    \"\"\"Base class of the ", " node family.\"\"\""], OneLine text := by
  decide +kernel

theorem oneLine_baseLines {base : String} (h : HasOnly [] base) :
    ∀ line ∈ baseLines base, OneLine line := by
  have hbase := h.oneLine (by simp)
  simp [baseLines, oneLine_append, hbase, oneLine_fixed]

theorem oneLine_classLines {base : String} {definition : NodeDefinition} (h : HasOnly [] base)
    (hname : HasOnly [] definition.name)
    (hfields : ∀ field ∈ definition.hints, NodeDefinition.Fielded field) :
    ∀ line ∈ classLines base definition, OneLine line := by
  have hbase := h.oneLine (by simp)
  have hclass := hname.oneLine (by simp)
  have hfield (field : NodeField) (hmem : field ∈ definition.fields) :
      OneLine field.name ∧ OneLine field.type.hint := by
    obtain ⟨hname, hhint⟩ := hfields field.hinted (List.mem_map_of_mem hmem)
    exact ⟨hname.oneLine (by simp), hhint.oneLine (by decide)⟩
  simpa [classLines, oneLine_append, hbase, hclass, oneLine_fixed] using hfield

theorem oneLine_lines {family : NodeFamily} (h : family.WellFormed) {lines : List String}
    (hlines : family.lines = .ok lines) : ∀ line ∈ lines, OneLine line := by
  obtain ⟨definitions, hread⟩ := exists_mapM_eq_ok h.definitions
  rw [NodeFamily.lines, hread] at hlines
  cases hlines
  refine List.forall_mem_append.mpr ⟨oneLine_baseLines h.base, fun line hline => ?_⟩
  obtain ⟨definition, hdefinition, hline⟩ := List.mem_flatMap.mp hline
  obtain ⟨text, -, htext⟩ := exists_read_of_mem hread definition hdefinition
  obtain ⟨hname, hfields⟩ := NodeDefinition.fielded_of_ofText htext
  exact oneLine_classLines h.base hname hfields line hline

end NodeFamily

theorem toList_intercalate_ended (line : String) (lines : List String) :
    ("\n".intercalate (line :: lines) ++ "\n").toList =
      (line :: lines).flatMap fun line => line.toList ++ ['\n'] := by
  induction lines generalizing line with
  | nil => simp
  | cons next lines ih =>
      rw [List.flatMap_cons, ← ih]
      simp

theorem ofText_ended_lines {lines : List String} (h : ∀ line ∈ lines, OneLine line) :
    Lines.ofText (lines.flatMap fun line => line.toList ++ ['\n']) = lines.map String.toList := by
  induction lines with
  | nil => rfl
  | cons line lines ih =>
      obtain ⟨hline, hlines⟩ := List.forall_mem_cons.mp h
      simp [Lines.ofText_ended (Lines.feed_not_mem hline), ih hlines]

namespace NodeFamily

variable {families : List NodeFamily}

theorem ofText_moduleText (h : ∀ family ∈ families, family.WellFormed) {text : String}
    (htext : moduleText families = .ok text) :
    ∃ body, families.mapM lines = .ok body ∧
      Lines.ofText text.toList = (header ++ body.flatten).map String.toList := by
  cases hbody : families.mapM lines with
  | error e =>
      rw [moduleText, hbody] at htext
      cases htext
  | ok body =>
      rw [moduleText, hbody] at htext
      cases htext
      have hlines : ∀ line ∈ header ++ body.flatten, OneLine line := by
        refine List.forall_mem_append.mpr ⟨oneLine_header, fun line hmem => ?_⟩
        obtain ⟨lines, hlines, hline⟩ := List.mem_flatten.mp hmem
        obtain ⟨family, hfamily, hread⟩ := exists_read_of_mem hbody lines hlines
        exact oneLine_lines (h family hfamily) hread line hline
      refine ⟨body, rfl, ?_⟩
      rw [← ofText_ended_lines hlines]
      exact congrArg Lines.ofText (toList_intercalate_ended _ _)

theorem moduleOutline_moduleText (h : ∀ family ∈ families, family.WellFormed) {text : String}
    (htext : moduleText families = .ok text) :
    List.Forall₂ FamilyOutline.IsOf families (moduleOutline text) := by
  obtain ⟨body, hbody, hlines⟩ := ofText_moduleText h htext
  obtain ⟨outlines, houtlines, hread⟩ := ModuleReading.ofTexts_families h hbody
  have houtline : moduleOutline text = outlines := by
    rw [moduleOutline, hlines]
    change (ModuleReading.ofTexts _ _).families = _
    rw [ModuleReading.ofTexts_append, hread, ModuleReading.ofTexts_other ModuleLine.ofText_header]
  rwa [houtline]

theorem mapM_lines_eq_error_iff {error : DefinitionError} :
    families.mapM lines = .error error ↔
      (families.flatMap NodeFamily.definitions).mapM NodeDefinition.ofText = .error error := by
  induction families with
  | nil => simp [pure, Except.pure]
  | cons family families ih =>
      rw [List.mapM_cons, List.flatMap_cons, List.mapM_append, NodeFamily.lines]
      cases family.definitions.mapM NodeDefinition.ofText with
      | error e => simp [bind, Except.bind]
      | ok definitions =>
          cases hrest : families.mapM lines <;>
            cases hothers : (families.flatMap NodeFamily.definitions).mapM NodeDefinition.ofText <;>
              simp_all [bind, Except.bind, pure, Except.pure]

theorem moduleText_eq_error_iff {error : DefinitionError} :
    moduleText families = .error error ↔
      FirstFailure NodeDefinition.ofText (families.flatMap NodeFamily.definitions) error := by
  rw [← mapM_eq_error_iff, ← mapM_lines_eq_error_iff, moduleText]
  cases families.mapM lines <;> simp [bind, Except.bind, pure, Except.pure]

theorem exists_moduleText (h : ∀ family ∈ families, family.WellFormed) :
    ∃ text, moduleText families = .ok text := by
  cases htext : moduleText families with
  | ok text => exact ⟨text, rfl⟩
  | error e =>
      obtain ⟨before, text, after, htexts, -, hrefused⟩ := moduleText_eq_error_iff.mp htext
      have hmem : text ∈ families.flatMap NodeFamily.definitions := by simp [htexts]
      obtain ⟨family, hfamily, htext⟩ := List.mem_flatMap.mp hmem
      obtain ⟨definition, hread⟩ := (h family hfamily).definitions text htext
      rw [hrefused] at hread
      cases hread

/--
From the text of families whose bases are names and whose definitions are all read, a reader of
its lines has every family, class, field and annotation back, so that families with the same
text have the same outlines.  If a definition is not read there is no text, and the error is
the one of the first such definition.
-/
theorem moduleText_determines_definitions (families : List NodeFamily) :
    ((∀ family ∈ families, family.WellFormed) →
      (∃ text, moduleText families = .ok text ∧
        List.Forall₂ FamilyOutline.IsOf families (moduleOutline text)) ∧
      ∀ families' : List NodeFamily, (∀ family ∈ families', family.WellFormed) →
        moduleText families' = moduleText families →
        ∃ outlines, List.Forall₂ FamilyOutline.IsOf families outlines ∧
          List.Forall₂ FamilyOutline.IsOf families' outlines) ∧
    ((∃ text ∈ families.flatMap NodeFamily.definitions,
        ∀ definition, NodeDefinition.ofText text ≠ .ok definition) →
      ∃ error, moduleText families = .error error ∧
        FirstFailure NodeDefinition.ofText (families.flatMap NodeFamily.definitions) error) := by
  refine ⟨fun h => ?_, fun hunread => ?_⟩
  · obtain ⟨text, htext⟩ := exists_moduleText h
    have houtline := moduleOutline_moduleText h htext
    refine ⟨⟨text, htext, houtline⟩, fun families' h' hsame => ?_⟩
    exact ⟨moduleOutline text, houtline, moduleOutline_moduleText h' (hsame.trans htext)⟩
  · obtain ⟨text, hmem, hnone⟩ := hunread
    obtain ⟨error, hfailure⟩ := exists_firstFailure hmem hnone
    exact ⟨error, moduleText_eq_error_iff.mpr hfailure, hfailure⟩

theorem moduleText_determines_definitions_empty :
    (∃ text, moduleText [⟨"E", ["A: L<T>? x, T y"]⟩, ⟨"S", []⟩] = .ok text ∧
      moduleOutline text =
        [⟨"E", [⟨"A", "E", [("x", "Optional[L[T]]"), ("y", "T")]⟩]⟩, ⟨"S", []⟩]) ∧
    ∃ error, moduleText [⟨"E", ["A: T x", "B"]⟩] = .error error := by
  have hread : NodeDefinition.ofText "A: L<T>? x, T y" =
      .ok ⟨"A", [⟨"x", .applied "L" (.plain "T" false) true⟩, ⟨"y", .plain "T" false⟩]⟩ := by
    with_unfolding_all rfl
  have hunread : NodeDefinition.ofText "B" = .error (.token ⟨.ending, [], 1⟩) := by
    with_unfolding_all rfl
  have hwell :
      ∀ family ∈ [NodeFamily.mk "E" ["A: L<T>? x, T y"], ⟨"S", []⟩], family.WellFormed := by
    have hbases : HasOnly [] "E" ∧ HasOnly [] "S" := by
      simp [HasOnly, DefinitionToken.isNamePart, DefinitionToken.isNameStart]
    simp only [List.forall_mem_cons, List.not_mem_nil, false_imp_iff, implies_true, and_true]
    exact ⟨⟨hbases.1, by simp [hread]⟩, ⟨hbases.2, by simp⟩⟩
  obtain ⟨hreads, -⟩ := moduleText_determines_definitions [⟨"E", ["A: L<T>? x, T y"]⟩, ⟨"S", []⟩]
  obtain ⟨-, hfails⟩ := moduleText_determines_definitions [⟨"E", ["A: T x", "B"]⟩]
  obtain ⟨⟨text, htext, houtline⟩, -⟩ := hreads hwell
  obtain ⟨error, herror, -⟩ := hfails ⟨"B", by simp, by simp [hunread]⟩
  refine ⟨⟨text, htext, ?_⟩, error, herror⟩
  simp only [List.forall₂_cons_left_iff, List.forall₂_nil_left_iff] at houtline
  obtain ⟨⟨_, first⟩, -, ⟨rfl, hfirst⟩, ⟨⟨_, second⟩, -, ⟨rfl, hsecond⟩, rfl, rfl⟩, houtline⟩ :=
    houtline
  simp only [List.forall₂_cons_left_iff, List.forall₂_nil_left_iff, ClassOutline.IsOf, hread]
    at hfirst hsecond
  obtain ⟨_, _, ⟨definition, hdefinition, rfl⟩, rfl, rfl⟩ := hfirst
  cases hdefinition
  rw [houtline, hsecond]
  rfl

end NodeFamily

end LoxLang

import LoxLang.Proofs.Lexing.Blanks

/-!
# Unexpected characters are isolated

A character that starts no lexeme can give its place to a blank: every other lexeme of the
text stays what it was and where it was.
-/

namespace LoxLang.Lexing

open Lexeme

/-! ## Where lexemes stand -/

structure Placement where
  start : Nat
  lexeme : Lexeme
  line : Nat

def placements : (start line : Nat) → List Lexeme → List Placement
  | _, _, [] => []
  | start, line, lexeme :: rest =>
      let last := line + newlines lexeme.text
      ⟨start, lexeme, last⟩ :: placements (start + lexeme.text.length) last rest

/-- The mistakes in a source, each with the position at which it is reported. -/
def mistakes (source : String) : List (Nat × Diagnostic) :=
  (placements 0 1 (ofText source.toList)).filterMap fun placement =>
    (placement.lexeme.problem? placement.line).map (placement.start, ·)

/-- A text that starts at the given position, with blanks at some positions. -/
def blankFrom (positions : Finset Nat) (start : Nat) (text : List Char) : List Char :=
  text.mapIdx fun i c => if start + i ∈ positions then ' ' else c

def blankAt (positions : Finset Nat) (source : String) : String :=
  String.ofList (blankFrom positions 0 source.toList)

theorem placements_withLines (start line : Nat) (lexemes : List Lexeme) :
    (placements start line lexemes).map (fun placement => (placement.lexeme, placement.line)) =
      withLines line lexemes := by
  induction lexemes generalizing start line with
  | nil => rfl
  | cons lexeme rest ih => simp [placements, withLines, ih]

theorem start_le_of_mem {start line : Nat} {lexemes : List Lexeme} {placement : Placement}
    (h : placement ∈ placements start line lexemes) : start ≤ placement.start := by
  induction lexemes generalizing start line with
  | nil => cases h
  | cons lexeme rest ih =>
      cases h with
      | head => exact Nat.le_refl _
      | tail _ h =>
          have hle := ih h
          omega

/-! ## Texts with blanks for characters -/

def StartsNone (c : Char) : Prop :=
  ∀ rest, NoneMatches (c :: rest)

/-- The character itself, or a blank for one that starts no lexeme. -/
inductive Veil : Char → Char → Prop
  | kept {c} : Veil c c
  | blanked {c} : StartsNone c → c ≠ '"' → Veil c ' '

theorem StartsNone.not_wordPart {c : Char} (h : StartsNone c) : isWordPart c = false := by
  rw [Bool.eq_false_iff]
  intro hpart
  obtain hletter | hdigit := isWordPart_iff.mp hpart
  · have hword : Word [c] := .intro hletter (by simp)
    exact h [] [c] _ (List.prefix_refl _) (matches_word hword)
  · have hdigits : Digits [c] := ⟨by simp, by simpa using hdigit⟩
    exact h [] [c] _ (List.prefix_refl _) (matches_whole hdigits)

theorem StartsNone.not_blank {c : Char} (h : StartsNone c) : c ∉ [' ', '\r', '\t', '\n'] :=
  fun hblank => h [] [c] _ (List.prefix_refl _) (.blank hblank)

theorem StartsNone.not_symbol {c : Char} (h : StartsNone c) (kind : TokenKind) :
    ([c], kind) ∉ symbols :=
  fun hsymbol => h [] [c] _ (List.prefix_refl _) (.symbol hsymbol)

def Blind (p : Char → Bool) : Prop :=
  ∀ c d, Veil c d → p d = p c

theorem blind_isDigit : Blind Char.isDigit := by
  rintro c _ (_ | ⟨hnone, -⟩)
  · rfl
  · have hpart := hnone.not_wordPart
    rw [isWordPart, Bool.or_eq_false_iff] at hpart
    exact hpart.2.symm

theorem blind_isWordPart : Blind isWordPart := by
  rintro c _ (_ | ⟨hnone, -⟩)
  · rfl
  · exact hnone.not_wordPart.symm

theorem Veil.eq_iff {c d : Char} (h : Veil c d) (stop : Char) (hblank : stop ≠ ' ')
    (hstop : (∃ kind, ([stop], kind) ∈ symbols) ∨ stop ∈ ['\r', '\t', '\n', '"']) :
    d = stop ↔ c = stop := by
  cases h with
  | kept => rfl
  | blanked hnone hquote =>
      refine iff_of_false (Ne.symm hblank) ?_
      rintro rfl
      obtain ⟨kind, hsymbol⟩ | hmem := hstop
      · exact hnone.not_symbol kind hsymbol
      · have hblank := hnone.not_blank
        simp_all

theorem blind_ne (stop : Char) (hblank : stop ≠ ' ') (hstop : stop ∈ ['\r', '\t', '\n', '"']) :
    Blind fun c => decide (c ≠ stop) := by
  intro c d hveil
  simp [hveil.eq_iff stop hblank (.inr hstop)]

abbrev Veiled (text text' : List Char) : Prop :=
  List.Forall₂ Veil text text'

variable {text text' rest rest' : List Char} {p : Char → Bool}

theorem Veiled.refl (text : List Char) : Veiled text text :=
  List.forall₂_same.mpr fun _ _ => .kept

theorem Veiled.takeWhile (h : Veiled text text') (hp : Blind p) :
    Veiled (text.takeWhile p) (text'.takeWhile p) := by
  induction h with
  | nil => exact .nil
  | @cons c d rest rest' hveil _ ih =>
      simp only [List.takeWhile_cons, hp _ _ hveil]
      split
      · exact .cons hveil ih
      · exact .nil

theorem Veiled.dropWhile (h : Veiled text text') (hp : Blind p) :
    Veiled (text.dropWhile p) (text'.dropWhile p) := by
  induction h with
  | nil => exact .nil
  | @cons c d rest rest' hveil hrest ih =>
      simp only [List.dropWhile_cons, hp _ _ hveil]
      split
      · exact ih
      · exact .cons hveil hrest

theorem Veiled.newlines_eq (h : Veiled text text') : newlines text' = newlines text := by
  induction h with
  | nil => rfl
  | cons hveil _ ih =>
      have hnewline := hveil.eq_iff '\n' (by decide) (.inr (by decide))
      simp only [newlines, List.count_cons, beq_iff_eq, hnewline] at ih ⊢
      rw [ih]

/-! ## The first lexeme of a veiled text -/

/-- What is cut is as long, and of the same form if it has the same text. -/
structure SameCut (taken taken' : Lexeme × List Char) : Prop where
  text : Veiled taken.1.text taken'.1.text
  rest : Veiled taken.2 taken'.2
  form : taken'.1.text = taken.1.text → taken'.1.form = taken.1.form

theorem SameCut.same (lexeme : Lexeme) (h : Veiled rest rest') :
    SameCut (lexeme, rest) (lexeme, rest') :=
  ⟨.refl _, h, fun _ => rfl⟩

theorem cutOperator_veiled (c : Char) (alone withEqual : TokenKind) (h : Veiled rest rest') :
    SameCut (cutOperator c alone withEqual rest) (cutOperator c alone withEqual rest') := by
  cases h with
  | nil => exact .same _ .nil
  | @cons d d' more more' hveil hmore =>
      have hequal := hveil.eq_iff '=' (by decide) (.inl ⟨.equal, by decide⟩)
      by_cases hd : d = '='
      · obtain rfl := hequal.mpr hd
        subst hd
        exact .same _ hmore
      · have hd' := mt hequal.mp hd
        simpa [cutOperator, hd, hd'] using SameCut.same _ (.cons hveil hmore)

theorem cutSlash_veiled (h : Veiled rest rest') : SameCut (cutSlash rest) (cutSlash rest') := by
  cases h with
  | nil => exact .same _ .nil
  | @cons d d' more more' hveil hmore =>
      have hslash := hveil.eq_iff '/' (by decide) (.inl ⟨.slash, by decide⟩)
      by_cases hd : d = '/'
      · obtain rfl := hslash.mpr hd
        subst hd
        have hblind := blind_ne '\n' (by decide) (by decide)
        exact ⟨.cons .kept (.cons .kept (Veiled.takeWhile hmore hblind)),
          Veiled.dropWhile hmore hblind, fun _ => rfl⟩
      · have hd' := mt hslash.mp hd
        simpa [cutSlash, hd, hd'] using SameCut.same _ (.cons hveil hmore)

theorem cutString_veiled (h : Veiled rest rest') : SameCut (cutString rest) (cutString rest') := by
  have hblind := blind_ne '"' (by decide) (by decide)
  have hcontent := h.takeWhile hblind
  have hafter := h.dropWhile hblind
  unfold cutString
  dsimp only
  generalize rest.dropWhile _ = after, rest'.dropWhile _ = after' at hafter
  cases hafter with
  | nil => exact ⟨.cons .kept hcontent, .nil, fun _ => rfl⟩
  | cons hquote hmore =>
      refine ⟨.cons .kept (List.rel_append hcontent (.cons hquote .nil)), hmore, ?_⟩
      simp +contextual

theorem spanNumber_veiled (h : Veiled text text') :
    Veiled (spanNumber text).1 (spanNumber text').1 ∧
      Veiled (spanNumber text).2 (spanNumber text').2 := by
  have hwhole := h.takeWhile blind_isDigit
  have hafter := h.dropWhile blind_isDigit
  unfold spanNumber
  dsimp only
  generalize text.dropWhile _ = after, text'.dropWhile _ = after' at hafter
  cases hafter with
  | nil => exact ⟨hwhole, .nil⟩
  | @cons c c' more more' hc hmore =>
      have hpoint := hc.eq_iff '.' (by decide) (.inl ⟨.dot, by decide⟩)
      by_cases hdot : c = '.'
      · obtain rfl := hpoint.mpr hdot
        subst hdot
        cases hmore with
        | nil => exact ⟨hwhole, .cons .kept .nil⟩
        | @cons d d' rest rest' hd hrest =>
            have hdecimals : Veiled (d :: rest) (d' :: rest') := .cons hd hrest
            simp only [blind_isDigit _ _ hd]
            split
            · exact ⟨List.rel_append hwhole (.cons .kept (hdecimals.takeWhile blind_isDigit)),
                hdecimals.dropWhile blind_isDigit⟩
            · exact ⟨hwhole, .cons .kept hdecimals⟩
      · simpa [hdot, mt hpoint.mp hdot] using And.intro hwhole (List.Forall₂.cons hc hmore)

theorem cutNumber_veiled (h : Veiled text text') : SameCut (cutNumber text) (cutNumber text') := by
  obtain ⟨hnumber, hrest⟩ := spanNumber_veiled h
  refine ⟨hnumber, hrest, fun htext => ?_⟩
  exact congrArg
    (fun digits => LexemeForm.token .number (.number (Number.ofDigitText digits))) htext

theorem cutWord_veiled (h : Veiled text text') : SameCut (cutWord text) (cutWord text') := by
  refine ⟨h.takeWhile blind_isWordPart, h.dropWhile blind_isWordPart, fun htext => ?_⟩
  exact congrArg (fun word => LexemeForm.token (wordKind word) .nil) htext

theorem cut_veiled (c : Char) (h : Veiled rest rest') : SameCut (cut c rest) (cut c rest') := by
  have hwhole : Veiled (c :: rest) (c :: rest') := .cons .kept h
  unfold cut
  split
  next => exact .same _ h
  next => exact cutOperator_veiled c _ _ h
  next =>
    split
    · exact cutSlash_veiled h
    · split
      · exact .same _ h
      · split
        · exact cutString_veiled h
        · split
          · exact cutNumber_veiled hwhole
          · split
            · exact cutWord_veiled hwhole
            · exact .same _ h

theorem cut_unexpected {c : Char} (h : (cut c rest).1.form = .unexpectedCharacter)
    (rest' : List Char) : cut c rest' = (⟨[c], .unexpectedCharacter⟩, rest') := by
  unfold cut at h ⊢
  split at h
  next => cases h
  next =>
    unfold cutOperator at h
    split at h <;> cases h
  next =>
    split at h
    · unfold cutSlash at h
      split at h <;> cases h
    · split at h
      · cases h
      · split at h
        · unfold cutString at h
          dsimp only at h
          split at h <;> cases h
        · split at h
          · cases h
          · split at h
            · cases h
            · simp_all

theorem veil_of_unexpected {c : Char} (h : (cut c rest).1.form = .unexpectedCharacter) :
    Veil c ' ' := by
  refine .blanked (fun rest' => ?_) ?_
  · rw [noneMatches_iff, cut_unexpected h]
    dsimp only
    generalize [c] = text
    rintro ⟨⟩
  · rintro rfl
    have hcut := congrArg (fun taken => taken.1.form) (cut_unexpected h [])
    cases hcut

/-! ## All lexemes of a text with blanks -/

def AllUnexpected (positions : Finset Nat) (start line : Nat) (lexemes : List Lexeme) : Prop :=
  ∀ position ∈ positions, start ≤ position →
    ∃ placement ∈ placements start line lexemes,
      placement.start = position ∧ placement.lexeme.form = .unexpectedCharacter

/-- The same lexeme in the same place, or a blank in place of an unexpected character. -/
inductive Isolated (positions : Finset Nat) : Placement → Placement → Prop
  | kept {placement} : placement.start ∉ positions → Isolated positions placement placement
  | blanked {start line text} :
      start ∈ positions →
      Isolated positions ⟨start, ⟨text, .unexpectedCharacter⟩, line⟩ ⟨start, ⟨[' '], .blank⟩, line⟩

variable {positions : Finset Nat} {start line : Nat}

theorem blankFrom_append (front back : List Char) :
    blankFrom positions start (front ++ back) =
      blankFrom positions start front ++ blankFrom positions (start + front.length) back := by
  simp [blankFrom, List.mapIdx_append, Nat.add_left_comm, Nat.add_comm]

theorem blankFrom_eq_self (h : ∀ i < text.length, start + i ∉ positions) :
    blankFrom positions start text = text := by
  apply List.ext_getElem
  · simp [blankFrom]
  · intro i _ hi
    simp [blankFrom, h i hi]

theorem AllUnexpected.tail {lexeme : Lexeme} {lexemes : List Lexeme} (hne : lexeme.text ≠ [])
    (h : AllUnexpected positions start line (lexeme :: lexemes)) :
    AllUnexpected positions (start + lexeme.text.length) (line + newlines lexeme.text) lexemes := by
  intro position hposition hle
  have hlength := List.length_pos_iff.mpr hne
  obtain ⟨placement, hmem, rfl, hform⟩ := h position hposition (by omega)
  cases hmem with
  | head => simp only at hle; omega
  | tail _ hmem => exact ⟨placement, hmem, rfl, hform⟩

theorem AllUnexpected.head {lexeme : Lexeme} {lexemes : List Lexeme} (hne : lexeme.text ≠ [])
    (h : AllUnexpected positions start line (lexeme :: lexemes)) :
    start ∈ positions ∧ lexeme.form = .unexpectedCharacter ∨
      start ∉ positions ∧ blankFrom positions start lexeme.text = lexeme.text := by
  have hlength := List.length_pos_iff.mpr hne
  have hfirst : ∀ i < lexeme.text.length, start + i ∈ positions →
      i = 0 ∧ lexeme.form = .unexpectedCharacter := by
    intro i hi hposition
    obtain ⟨placement, hmem, hstart, hform⟩ := h _ hposition (by omega)
    cases hmem with
    | head =>
        simp only at hstart hform
        exact ⟨by omega, hform⟩
    | tail _ hmem =>
        have hle := start_le_of_mem hmem
        omega
  by_cases hstart : start ∈ positions
  · exact .inl ⟨hstart, (hfirst 0 hlength hstart).2⟩
  · refine .inr ⟨hstart, blankFrom_eq_self fun i hi hposition => hstart ?_⟩
    obtain ⟨rfl, -⟩ := hfirst i hi hposition
    exact hposition

theorem AllUnexpected.veiled (h : AllUnexpected positions start line (ofText text)) :
    Veiled text (blankFrom positions start text) := by
  fun_induction ofText text generalizing start line with
  | case1 => exact .nil
  | case2 c rest ih =>
      have hne := cut_text_ne_nil c rest
      have hafter := ih (h.tail hne)
      have hwhole := cut_append c rest
      obtain ⟨hstart, hform⟩ | ⟨-, hsame⟩ := h.head hne
      · rw [cut_unexpected hform] at hafter
        have hfirst : blankFrom positions start [c] = [' '] := by simp [blankFrom, hstart]
        rw [← List.singleton_append, blankFrom_append, hfirst]
        exact .cons (veil_of_unexpected hform) hafter
      · rw [← hwhole, blankFrom_append, hsame]
        exact List.rel_append (Veiled.refl _) hafter

/-- A lexeme in which nothing gives way is cut in front of what gives way behind it. -/
theorem cut_of_veiled {c : Char} {after' : List Char} (h : Veiled rest rest')
    (htext : c :: rest' = (cut c rest).1.text ++ after') :
    cut c rest' = ((cut c rest).1, after') := by
  have hsame := cut_veiled c h
  obtain ⟨hfirst, hafter⟩ := List.append_inj ((cut_append c rest').trans htext)
    hsame.text.length_eq.symm
  have hform := hsame.form hfirst
  generalize cut c rest' = taken, (cut c rest).1 = lexeme at hfirst hafter hform ⊢
  obtain ⟨⟨text', form'⟩, rest''⟩ := taken
  obtain ⟨text, form⟩ := lexeme
  simp_all

theorem AllUnexpected.isolated (h : AllUnexpected positions start line (ofText text)) :
    List.Forall₂ (Isolated positions) (placements start line (ofText text))
      (placements start line (ofText (blankFrom positions start text))) := by
  have hveiled := h.veiled
  fun_induction ofText text generalizing start line with
  | case1 => simp [blankFrom, ofText, placements]
  | case2 c rest ih =>
      have hne := cut_text_ne_nil c rest
      have htail := h.tail hne
      have hafter := ih htail htail.veiled
      have hcons : blankFrom positions start (c :: rest) =
          (if start ∈ positions then ' ' else c) :: blankFrom positions (start + 1) rest := by
        rw [← List.singleton_append, blankFrom_append]
        simp [blankFrom]
      rw [hcons] at hveiled ⊢
      obtain ⟨hstart, hform⟩ | ⟨hstart, hsame⟩ := h.head hne
      · have hline : newlines [c] = newlines [' '] :=
          (Veiled.newlines_eq (.cons (veil_of_unexpected hform) .nil)).symm
        rw [cut_unexpected hform] at hafter ⊢
        rw [if_pos hstart, ofText, cut_blank (by decide)]
        simp only [placements, hline] at hafter ⊢
        exact .cons (.blanked hstart) hafter
      · rw [if_neg hstart] at hveiled hcons ⊢
        have htext := (congrArg (blankFrom positions start) (cut_append c rest)).symm
        rw [hcons, blankFrom_append, hsame] at htext
        rw [ofText, cut_of_veiled (List.forall₂_cons.mp hveiled).2 htext]
        exact .cons (.kept hstart) hafter

theorem filterMap_eq_of_forall₂ {α β γ : Type} {R : α → β → Prop} {f : α → Option γ}
    {g : β → Option γ} {items : List α} {others : List β} (h : List.Forall₂ R items others)
    (hsame : ∀ a b, R a b → f a = g b) : items.filterMap f = others.filterMap g := by
  induction h with
  | nil => rfl
  | cons hfirst _ ih => simp only [List.filterMap_cons, hsame _ _ hfirst, ih]

/-! ## The scan of a source with blanks -/

theorem body_eq_placements (source : String) :
    (scan source).text.body = (placements 0 1 (ofText source.toList)).filterMap fun placement =>
      placement.lexeme.token? placement.line := by
  rw [scan, ← placements_withLines 0, List.filterMap_map]
  rfl

theorem problems_eq_mistakes (source : String) :
    (scan source).problems = (mistakes source).map Prod.snd := by
  rw [scan, ← placements_withLines 0, List.filterMap_map, mistakes, List.map_filterMap]
  simp [Function.comp_def]

theorem allUnexpected_of_mistakes {source : String}
    (h : ∀ position ∈ positions, ∃ problem, (position, problem) ∈ mistakes source ∧
      problem.message = "Unexpected character.") :
    AllUnexpected positions 0 1 (ofText source.toList) := by
  intro position hposition _
  obtain ⟨problem, hmem, hmessage⟩ := h position hposition
  obtain ⟨placement, hplacement, hproblem⟩ := List.mem_filterMap.mp hmem
  obtain ⟨_, hfound, heq⟩ := Option.map_eq_some_iff.mp hproblem
  cases heq
  refine ⟨placement, hplacement, rfl, ?_⟩
  unfold problem? at hfound
  split at hfound
  next hform => exact hform
  next =>
    cases hfound
    simp [Diagnostic.lexical] at hmessage
  next => cases hfound

theorem exists_placement {lexemes : List Lexeme} {lexeme : Lexeme} (h : lexeme ∈ lexemes)
    (start line : Nat) : ∃ placement ∈ placements start line lexemes,
      placement.lexeme = lexeme := by
  induction lexemes generalizing start line with
  | nil => cases h
  | cons first rest ih =>
      cases h with
      | head => exact ⟨_, .head _, rfl⟩
      | tail _ h =>
          obtain ⟨placement, hmem, hlexeme⟩ := ih h _ _
          exact ⟨placement, .tail _ hmem, hlexeme⟩

/-- A string that is left open goes on to the end, so there is one at most. -/
theorem problems_without_unexpected (h : ∀ lexeme ∈ ofText text, lexeme.form ≠ .unexpectedCharacter)
    (line : Nat) :
    let problems := (withLines line (ofText text)).filterMap fun (lexeme, last) =>
      lexeme.problem? last
    problems = [] ∨ ∃ last : Nat, problems = [.lexical last "Unterminated string."] := by
  fun_induction ofText text generalizing line with
  | case1 => exact .inl rfl
  | case2 c rest ih =>
      obtain ⟨hfirst, hrest⟩ := List.forall_mem_cons.mp h
      simp only [withLines, List.filterMap_cons]
      obtain hmatches | ⟨-, hcut⟩ | ⟨-, hcut⟩ := cut_matches c rest
      · have hnone : (cut c rest).1.problem? (line + newlines (cut c rest).1.text) = none := by
          unfold problem?
          generalize (cut c rest).1.form = form, (cut c rest).1.text = text at hmatches
          cases hmatches <;> rfl
        rw [hnone]
        exact ih hrest _
      · exact absurd (by rw [hcut]) hfirst
      · right
        rw [hcut, ofText]
        exact ⟨_, rfl⟩

theorem toList_blankAt (positions : Finset Nat) (source : String) :
    (blankAt positions source).toList = blankFrom positions 0 source.toList :=
  String.toList_ofList

theorem text_blankAt {source : String}
    (h : AllUnexpected positions 0 1 (ofText source.toList)) :
    (scan (blankAt positions source)).text = (scan source).text := by
  have hisolated := h.isolated
  rw [← toList_blankAt] at hisolated
  have hbody : (scan (blankAt positions source)).text.body = (scan source).text.body := by
    rw [body_eq_placements, body_eq_placements]
    refine (filterMap_eq_of_forall₂ hisolated ?_).symm
    rintro _ _ (_ | _) <;> rfl
  have hending : (scan (blankAt positions source)).text.ending = (scan source).text.ending := by
    simp only [scan, toList_blankAt, h.veiled.newlines_eq]
  exact (congrArg₂ TokenText.mk hbody hending :)

theorem mistakes_blankAt {source : String}
    (h : AllUnexpected positions 0 1 (ofText source.toList)) :
    mistakes (blankAt positions source) = (mistakes source).filter (·.1 ∉ positions) := by
  have hisolated := h.isolated
  rw [← toList_blankAt] at hisolated
  rw [mistakes, mistakes, List.filter_filterMap]
  refine (filterMap_eq_of_forall₂ hisolated ?_).symm
  rintro _ _ (hkept | hblanked)
  next placement =>
    cases placement.lexeme.problem? placement.line <;> simp [Option.filter, hkept]
  next => simp [problem?, Option.filter, hblanked]

theorem form_ne_unexpected {source : String}
    (h : ∀ position problem, (position, problem) ∈ mistakes source →
      problem.message ≠ "Unexpected character.") :
    ∀ lexeme ∈ ofText source.toList, lexeme.form ≠ .unexpectedCharacter := by
  intro lexeme hmem hform
  obtain ⟨placement, hplacement, rfl⟩ := exists_placement hmem 0 1
  refine h placement.start (.lexical placement.line "Unexpected character.") ?_ rfl
  exact List.mem_filterMap.mpr ⟨placement, hplacement, by simp [problem?, hform]⟩

/--
Blanks in place of any of the unexpected characters of a source change none of its tokens,
and of its mistakes only those go that were reported there.  With all of them replaced, what
may be left is one string that is left open.
-/
theorem unexpected_characters_isolated (source : String) (positions : Finset Nat)
    (h : ∀ position ∈ positions, ∃ problem, (position, problem) ∈ mistakes source ∧
      problem.message = "Unexpected character.") :
    (scan source).problems = (mistakes source).map Prod.snd ∧
    (scan (blankAt positions source)).text = (scan source).text ∧
    mistakes (blankAt positions source) = (mistakes source).filter (·.1 ∉ positions) ∧
    (scan (blankAt positions source)).problems =
      ((mistakes source).filter (·.1 ∉ positions)).map Prod.snd ∧
    ((∀ position problem, (position, problem) ∈ mistakes source →
        problem.message = "Unexpected character." → position ∈ positions) →
      (scan (blankAt positions source)).problems = [] ∨
        ∃ line : Nat, (scan (blankAt positions source)).problems =
          [.lexical line "Unterminated string."]) := by
  have hunexpected := allUnexpected_of_mistakes h
  have hmistakes := mistakes_blankAt hunexpected
  refine ⟨problems_eq_mistakes source, text_blankAt hunexpected, hmistakes, ?_, fun hall => ?_⟩
  · rw [problems_eq_mistakes, hmistakes]
  · refine problems_without_unexpected (form_ne_unexpected ?_) 1
    intro position problem hmem hmessage
    rw [hmistakes, List.mem_filter] at hmem
    exact of_decide_eq_true hmem.2 (hall position problem hmem.1 hmessage)

/-- Between an operator that `=` may follow and an open quote, the character alone gives way. -/
theorem unexpected_characters_isolated_operator :
    (∃ problem, (1, problem) ∈ mistakes "!@\"" ∧ problem.message = "Unexpected character.") ∧
      (scan "! \"").text = (scan "!@\"").text ∧
      (scan "! \"").problems = [.lexical 1 "Unterminated string."] := by
  have hmistakes : mistakes "!@\"" =
      [(1, .lexical 1 "Unexpected character."), (2, .lexical 1 "Unterminated string.")] := by
    cbv
  have hunexpected : ∀ position ∈ ({1} : Finset Nat), ∃ problem,
      (position, problem) ∈ mistakes "!@\"" ∧ problem.message = "Unexpected character." := by
    intro position hposition
    rw [Finset.mem_singleton.mp hposition, hmistakes]
    exact ⟨_, .head _, rfl⟩
  obtain ⟨-, htext, -, hproblems, -⟩ := unexpected_characters_isolated "!@\"" {1} hunexpected
  have hblank : blankAt {1} "!@\"" = "! \"" := by
    decide
  rw [hmistakes] at hproblems
  rw [hblank] at htext hproblems
  exact ⟨hunexpected 1 (by decide), htext, hproblems.trans (by decide)⟩

end LoxLang.Lexing

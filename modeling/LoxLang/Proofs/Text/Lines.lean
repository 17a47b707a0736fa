import LoxLang.Text.Lines

/-!
# The lines of a text

Under universal newlines a line is ended by a line feed, by a carriage return, or by the two
together; else by a line feed alone.  What follows the last line end is a line unless it is
empty.
-/

namespace LoxLang

namespace Lines

theorem join_append (lines lines' : List String) :
    join (lines ++ lines') = join lines ++ join lines' := by
  simp [join]

/-! ## Lines with their ends -/

inductive LineEnd : Newlines → List Char → List Char → Prop
  | feed {newlines rest} : LineEnd newlines ['\n'] rest
  | both {rest} : LineEnd .universal ['\r', '\n'] rest
  | carriage {rest} : rest.head? ≠ some '\n' → LineEnd .universal ['\r'] rest

def Plain (newlines : Newlines) (c : Char) : Prop :=
  c ≠ '\n' ∧ (newlines = .universal → c ≠ '\r')

inductive HasLines (newlines : Newlines) : List Char → List (List Char) → Prop
  | none : HasLines newlines [] []
  | last {line} : line ≠ [] → (∀ c ∈ line, Plain newlines c) → HasLines newlines line [line]
  | ended {line ending rest lines} :
      (∀ c ∈ line, Plain newlines c) → LineEnd newlines ending rest →
      HasLines newlines rest lines → HasLines newlines (line ++ (ending ++ rest)) (line :: lines)

variable {newlines : Newlines} {line text rest : List Char} {lines : List (List Char)}

theorem HasLines.plain (h : HasLines newlines text lines) :
    ∀ line ∈ lines, ∀ c ∈ line, Plain newlines c := by
  induction h with
  | none => simp
  | last _ hplain => simpa using hplain
  | ended hplain _ _ ih => exact List.forall_mem_cons.mpr ⟨hplain, ih⟩

theorem unify_plain (h : ∀ c ∈ line, Plain .universal c) (rest : List Char) :
    unify (line ++ rest) = line ++ unify rest := by
  induction line with
  | nil => rfl
  | cons c line ih =>
      obtain ⟨⟨-, hc⟩, hline⟩ := List.forall_mem_cons.mp h
      rw [List.cons_append, unify, if_neg (hc rfl), ih hline, List.cons_append]
      rintro rest rfl
      exact absurd rfl (hc rfl)

theorem translate_plain (h : ∀ c ∈ line, Plain newlines c) (rest : List Char) :
    newlines.translate (line ++ rest) = line ++ newlines.translate rest := by
  cases newlines with
  | universal => exact unify_plain h rest
  | feeds => rfl

theorem LineEnd.translate {ending : List Char} (h : LineEnd newlines ending rest) :
    newlines.translate (ending ++ rest) = '\n' :: newlines.translate rest := by
  cases h with
  | feed => cases newlines <;> simp [Newlines.translate, unify]
  | both => simp [Newlines.translate, unify]
  | carriage hrest =>
      cases rest with
      | nil => simp [Newlines.translate, unify]
      | cons c rest =>
          have hc : c ≠ '\n' := by simpa using hrest
          simp [Newlines.translate, unify, hc]

theorem feed_not_mem (h : ∀ c ∈ line, Plain newlines c) : '\n' ∉ line :=
  fun hmem => (h _ hmem).1 rfl

theorem ofText_last (hline : line ≠ []) (h : '\n' ∉ line) : ofText line = [line] := by
  simp [ofText, List.splitOn_eq_singleton h, hline]

theorem ofText_ended (h : '\n' ∉ line) (rest : List Char) :
    ofText (line ++ '\n' :: rest) = line :: ofText rest := by
  have hne := List.splitOn_ne_nil '\n' rest
  simp only [ofText, List.splitOn_append_cons_self_of_not_mem h,
    List.getLast?_cons_of_ne_nil hne, List.dropLast_cons_of_ne_nil hne]
  split <;> rfl

theorem HasLines.ofText (h : HasLines newlines text lines) :
    ofText (newlines.translate text) = lines := by
  induction h with
  | none => cases newlines <;> rfl
  | @last line hline hplain =>
      have hnone : newlines.translate [] = [] := by cases newlines <;> rfl
      have htranslated := translate_plain hplain []
      rw [List.append_nil, hnone, List.append_nil] at htranslated
      rw [htranslated, ofText_last hline (feed_not_mem hplain)]
  | ended hplain hending _ ih =>
      rw [translate_plain hplain, hending.translate, ofText_ended (feed_not_mem hplain), ih]

theorem HasLines.unique {lines' : List (List Char)} (h : HasLines newlines text lines)
    (h' : HasLines newlines text lines') : lines' = lines :=
  h'.ofText.symm.trans h.ofText

end Lines

abbrev StandardInput.HasLines (input : StandardInput) (lines : List (List Char)) : Prop :=
  Lines.HasLines input.newlines input.text lines

end LoxLang

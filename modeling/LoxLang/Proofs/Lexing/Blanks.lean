import LoxLang.Proofs.Lexing.Decomposition

/-!
# Lexemes end in front of blanks

A lexeme that ends in front of a blank is cut the same whatever stands behind the blank,
unless it is a string that is left open or a comment, which goes on up to a newline.
And a text that is cut off where a lexeme starts has the lexemes up to there.
-/

namespace LoxLang.Lexeme

open Lexing

/-! ## One lexeme in front of a blank -/

section

variable {p : Char → Bool} {stop : Char}

theorem takeWhile_stop (hp : p stop = false) (front back : List Char) :
    (front ++ stop :: back).takeWhile p = front.takeWhile p := by
  induction front with
  | nil => simp [hp]
  | cons c rest ih => simp only [List.cons_append, List.takeWhile_cons, ih]

theorem dropWhile_stop (hp : p stop = false) (front back : List Char) :
    (front ++ stop :: back).dropWhile p = front.dropWhile p ++ stop :: back := by
  induction front with
  | nil => simp [hp]
  | cons c rest ih =>
      simp only [List.cons_append, List.dropWhile_cons, ih]
      split <;> rfl

theorem takeWhile_append_of_stop {front : List Char} (h : front.dropWhile p ≠ [])
    (back : List Char) : (front ++ back).takeWhile p = front.takeWhile p := by
  induction front with
  | nil => exact absurd rfl h
  | cons c rest ih =>
      by_cases hc : p c = true
      · simp only [List.dropWhile_cons, hc, if_true] at h
        simp [hc, ih h]
      · simp [hc]

theorem dropWhile_append_of_stop {front : List Char} (h : front.dropWhile p ≠ [])
    (back : List Char) : (front ++ back).dropWhile p = front.dropWhile p ++ back := by
  rw [List.dropWhile_append]
  simp [h]

end

def before (back : List Char) (taken : Lexeme × List Char) : Lexeme × List Char :=
  (taken.1, taken.2 ++ back)

section

variable {b : Char}

theorem blank_starts_none (hb : b ∈ [' ', '\r', '\t', '\n']) :
    b ≠ '=' ∧ b ≠ '/' ∧ b ≠ '.' ∧ b.isDigit = false ∧ isWordPart b = false := by
  simp only [List.mem_cons, List.not_mem_nil, or_false] at hb
  rcases hb with rfl | rfl | rfl | rfl <;> decide

theorem cutOperator_blank (hb : b ∈ [' ', '\r', '\t', '\n']) (c : Char)
    (alone withEqual : TokenKind) (rest back : List Char) :
    cutOperator c alone withEqual (rest ++ b :: back) =
      before (b :: back) (cutOperator c alone withEqual rest) := by
  have hne := (blank_starts_none hb).1
  cases rest with
  | nil => simp [cutOperator, before, hne]
  | cons d rest =>
      by_cases hd : d = '='
      · rw [hd]
        rfl
      · simp [cutOperator, before, hd]

theorem cutSlash_blank (hb : b ∈ [' ', '\r', '\t', '\n']) {rest : List Char}
    (h : (cutSlash rest).1.form = .comment → (cutSlash rest).2 = [] → b = '\n')
    (back : List Char) : cutSlash (rest ++ b :: back) = before (b :: back) (cutSlash rest) := by
  have hne := (blank_starts_none hb).2.1
  cases rest with
  | nil => simp [cutSlash, before, hne]
  | cons d rest =>
      by_cases hd : d = '/'
      · subst hd
        simp only [cutSlash, before, List.cons_append]
        by_cases hend : rest.dropWhile (· ≠ '\n') = []
        · obtain rfl : b = '\n' := h rfl hend
          rw [takeWhile_stop (by decide), dropWhile_stop (by decide)]
        · rw [takeWhile_append_of_stop hend, dropWhile_append_of_stop hend]
      · simp [cutSlash, before, hd]

theorem cutString_append {rest : List Char} (h : (cutString rest).1.form ≠ .unterminatedString)
    (back : List Char) : cutString (rest ++ back) = before back (cutString rest) := by
  cases hrest : rest.dropWhile (· ≠ '"') with
  | nil => exact absurd (by simp only [cutString, hrest]) h
  | cons quote after =>
      have hstop : rest.dropWhile (· ≠ '"') ≠ [] := by
        rw [hrest]
        exact List.cons_ne_nil _ _
      have htake := takeWhile_append_of_stop hstop back
      have hdrop := dropWhile_append_of_stop hstop back
      rw [hrest, List.cons_append] at hdrop
      simp only [cutString, htake, hdrop, hrest, before]

theorem spanNumber_blank (hb : b ∈ [' ', '\r', '\t', '\n']) (text back : List Char) :
    spanNumber (text ++ b :: back) = ((spanNumber text).1, (spanNumber text).2 ++ b :: back) := by
  obtain ⟨-, -, hpoint, hstop, -⟩ := blank_starts_none hb
  unfold spanNumber
  rw [takeWhile_stop hstop, dropWhile_stop hstop]
  generalize text.dropWhile Char.isDigit = after
  match after with
  | [] => simp [hpoint]
  | [c] =>
      by_cases hc : c = '.'
      · simp [hc, hstop]
      · simp [hc]
  | c :: d :: rest =>
      by_cases hc : c = '.'
      · subst hc
        cases hd : d.isDigit with
        | false => simp [hd]
        | true =>
            have htake := takeWhile_stop hstop (d :: rest) back
            have hdrop := dropWhile_stop hstop (d :: rest) back
            rw [List.cons_append] at htake hdrop
            simp [hd, htake, hdrop]
      · simp [hc]

theorem cutWord_blank (hb : b ∈ [' ', '\r', '\t', '\n']) (text back : List Char) :
    cutWord (text ++ b :: back) = before (b :: back) (cutWord text) := by
  obtain ⟨-, -, -, -, hstop⟩ := blank_starts_none hb
  simp only [cutWord, before, takeWhile_stop hstop, dropWhile_stop hstop]

/-- Blanks can stand in strings and in comments, and stop everything else. -/
theorem cut_in_front_of_blank (hb : b ∈ [' ', '\r', '\t', '\n']) {c : Char} {rest : List Char}
    (hstring : (cut c rest).1.form ≠ .unterminatedString)
    (hcomment : (cut c rest).1.form = .comment → (cut c rest).2 = [] → b = '\n')
    (back : List Char) : cut c (rest ++ b :: back) = before (b :: back) (cut c rest) := by
  unfold cut
  split
  next => rfl
  next => exact cutOperator_blank hb _ _ _ _ _
  next hpunctuation hcomparison =>
    by_cases hslash : c = '/'
    · subst hslash
      exact cutSlash_blank hb hcomment back
    rw [if_neg hslash, if_neg hslash]
    split
    · rfl
    · split
      next hquote =>
        subst hquote
        exact cutString_append hstring _
      · split
        · have hspan := spanNumber_blank hb (c :: rest) back
          rw [List.cons_append] at hspan
          simp only [cutNumber, hspan, before]
        · split
          · exact cutWord_blank hb (c :: rest) back
          · rfl

end

theorem cut_comment {c : Char} {rest : List Char} (h : (cut c rest).1.form = .comment) :
    ∃ content, c = '/' ∧ rest = '/' :: content := by
  have hparts := cut_append c rest
  rcases cut_matches c rest with hmatches | ⟨-, hcut⟩ | ⟨-, hcut⟩
  · rw [h] at hmatches
    generalize (cut c rest).1.text = text at hmatches hparts
    cases hmatches with
    | comment =>
        obtain ⟨hc, hrest⟩ := List.cons.inj hparts
        exact ⟨_, hc.symm, hrest.symm⟩
  · rw [hcut] at h
    cases h
  · rw [hcut] at h
    cases h

theorem cut_closed_comment {content : List Char} (h : '\n' ∉ content) (back : List Char) :
    cut '/' ('/' :: content ++ '\n' :: back) =
      (⟨'/' :: '/' :: content, .comment⟩, '\n' :: back) := by
  have hcontent := all_ne_of_not_mem h
  change (Lexeme.mk ('/' :: '/' :: (content ++ '\n' :: back).takeWhile _) _,
    (content ++ '\n' :: back).dropWhile _) = _
  rw [List.takeWhile_append_of_pos hcontent, List.dropWhile_append_of_pos hcontent]
  simp

/-! ## All lexemes in front of a blank -/

/-- The lexemes of the front stay, but for a comment at its end, which goes on up to a newline. -/
theorem ofText_in_front_of_blank {b : Char} (hb : b ∈ [' ', '\r', '\t', '\n']) {front : List Char}
    (h : ∀ lexeme ∈ ofText front, lexeme.form ≠ .unterminatedString) (back : List Char) :
    ofText (front ++ b :: back) = ofText front ++ ofText (b :: back) ∨
      ∃ shown comment, ofText front = shown ++ [⟨comment, .comment⟩] ∧
        ofText (front ++ b :: back) =
          shown ++ ⟨comment ++ (b :: back).takeWhile (· ≠ '\n'), .comment⟩ ::
            ofText ((b :: back).dropWhile (· ≠ '\n')) := by
  fun_induction ofText front with
  | case1 => exact .inl rfl
  | case2 c rest ih =>
      obtain ⟨hfirst, hothers⟩ := List.forall_mem_cons.mp h
      -- Only a comment that nothing stopped goes on behind the front.
      by_cases hopen : (cut c rest).1.form = .comment ∧ (cut c rest).2 = []
      · obtain ⟨content, rfl, rfl⟩ := cut_comment hopen.1
        have hend : content.dropWhile (· ≠ '\n') = [] := hopen.2
        have hcontent : ∀ d ∈ content, decide (d ≠ '\n') = true :=
          List.dropWhile_eq_nil_iff.mp hend
        refine .inr ⟨[], '/' :: '/' :: content, ?_, ?_⟩
        · change ⟨'/' :: '/' :: content.takeWhile _, .comment⟩ :: ofText (content.dropWhile _) = _
          rw [hend, List.takeWhile_eq_self_iff.mpr hcontent, ofText]
          rfl
        · rw [List.cons_append, ofText]
          change ⟨'/' :: '/' :: (content ++ b :: back).takeWhile _, .comment⟩ ::
            ofText ((content ++ b :: back).dropWhile _) = _
          rw [List.takeWhile_append_of_pos hcontent, List.dropWhile_append_of_pos hcontent]
          rfl
      · have hcomment : (cut c rest).1.form = .comment → (cut c rest).2 = [] → b = '\n' :=
          fun hform hrest => absurd ⟨hform, hrest⟩ hopen
        have hcut := cut_in_front_of_blank hb hfirst hcomment back
        rw [List.cons_append, ofText, hcut]
        simp only [before]
        rcases ih hothers with hrest | ⟨shown, comment, hrest, hgrown⟩
        · rw [hrest]
          exact .inl rfl
        · rw [hrest, hgrown]
          exact .inr ⟨(cut c rest).1 :: shown, comment, rfl, rfl⟩

end LoxLang.Lexeme

/-! ## Where a lexeme starts -/

namespace LoxLang.Lexing

open Lexeme

theorem First.eq_append {text rest : List Char} {lexeme : Lexeme} (h : First text lexeme rest) :
    text = lexeme.text ++ rest := by
  cases h with
  | longest htext _ _ => exact htext
  | unexpected => rfl
  | unterminated => simp

theorem First.rest_of_unterminated {text segment rest : List Char}
    (h : First text ⟨segment, .unterminatedString⟩ rest) : rest = [] := by
  cases h with
  | longest _ hmatches _ => cases hmatches
  | unterminated => rfl

theorem First.of_append {text rest back : List Char} {lexeme : Lexeme}
    (h : First (text ++ back) lexeme (rest ++ back)) : First text lexeme rest := by
  generalize hwhole : text ++ back = whole at h
  generalize hafter : rest ++ back = after at h
  cases h with
  | longest htext hmatches hlongest =>
      rw [← hwhole, ← hafter, ← List.append_assoc] at htext
      refine .longest (List.append_cancel_right htext) hmatches fun front form hfront hform => ?_
      rw [← hwhole] at hlongest
      exact hlongest front form (hfront.trans (List.prefix_append _ _)) hform
  | unexpected hnone hquote =>
      rw [← hafter, ← List.cons_append] at hwhole
      obtain rfl := List.append_cancel_right hwhole
      rw [← hafter] at hnone
      refine .unexpected (fun front form hfront => ?_) hquote
      exact hnone front form (hfront.trans (List.prefix_append (_ :: rest) back))
  | unterminated hnone =>
      obtain ⟨rfl, rfl⟩ := List.append_eq_nil_iff.mp hafter
      rw [List.append_nil] at hwhole
      rw [hwhole]
      exact .unterminated hnone

theorem Decomposes.of_append {front back : List Lexeme} {after : List Char}
    (h : Decomposes (front.flatMap Lexeme.text ++ after) (front ++ back)) :
    Decomposes (front.flatMap Lexeme.text) front ∧ Decomposes after back := by
  induction front with
  | nil => exact ⟨.nil, h⟩
  | cons lexeme others ih =>
      generalize hwhole : (lexeme :: others).flatMap Lexeme.text ++ after = whole at h
      cases h with
      | @cons _ _ rest _ hfirst hrest =>
          have hparts := hfirst.eq_append
          rw [← hwhole, List.flatMap_cons, List.append_assoc] at hparts
          obtain rfl := List.append_cancel_left hparts
          obtain ⟨hothers, hback⟩ := ih hrest
          rw [← hwhole, List.flatMap_cons] at hfirst
          exact ⟨.cons (hfirst.of_append) hothers, hback⟩

theorem Decomposes.form_ne_unterminatedString {text : List Char} {front back : List Lexeme}
    (h : Decomposes text (front ++ back)) (hback : back ≠ []) :
    ∀ lexeme ∈ front, lexeme.form ≠ .unterminatedString := by
  induction front generalizing text with
  | nil => simp
  | cons first others ih =>
      cases h with
      | cons hfirst hrest =>
          rw [List.forall_mem_cons]
          refine ⟨?_, ih hrest⟩
          intro hform
          obtain ⟨segment, form⟩ := first
          cases hform
          rw [hfirst.rest_of_unterminated] at hrest
          have hnone := decomposes_iff.mp hrest
          rw [ofText] at hnone
          exact hback (List.append_eq_nil_iff.mp hnone).2

end LoxLang.Lexing

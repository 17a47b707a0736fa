import Mathlib.Data.List.TakeWhile
import LoxLang.Proofs.Lexing.Forms

/-!
# Cutting takes the longest lexeme

Every lexeme that a text can start with is at most as long as the one cut off it,
and is that one if it is as long.  So the lexemes of a text are the one way to
decompose it.
-/

namespace LoxLang.Lexing

open Lexeme

/-! ## What is cut by the first character -/

theorem cut_punctuation {c : Char} {kind : TokenKind} (h : punctuation? c = some kind)
    (rest : List Char) : cut c rest = (⟨[c], .token kind .nil⟩, rest) := by
  simp only [cut, h]

theorem cut_comparison {c : Char} {alone withEqual : TokenKind}
    (h : comparison? c = some (alone, withEqual)) (rest : List Char) :
    cut c rest = cutOperator c alone withEqual rest := by
  have hpunctuation : punctuation? c = none := by
    unfold comparison? at h
    split at h <;> first | rfl | cases h
  simp only [cut, hpunctuation, h]

theorem cut_blank {c : Char} (h : c ∈ [' ', '\r', '\t', '\n']) (rest : List Char) :
    cut c rest = (⟨[c], .blank⟩, rest) := by
  simp only [List.mem_cons, List.not_mem_nil, or_false] at h
  rcases h with rfl | rfl | rfl | rfl <;> rfl

theorem cut_wordPart {c : Char} (h : isWordPart c = true) (rest : List Char) :
    cut c rest = if c.isDigit then cutNumber (c :: rest) else cutWord (c :: rest) := by
  have hpunctuation : punctuation? c = none := by
    unfold punctuation?
    split <;> first | rfl | exact absurd h (by decide)
  have hcomparison : comparison? c = none := by
    unfold comparison?
    split <;> first | rfl | exact absurd h (by decide)
  have hslash : c ≠ '/' := by
    rintro rfl
    exact absurd h (by decide)
  have hquote : c ≠ '"' := by
    rintro rfl
    exact absurd h (by decide)
  have hblank : isBlank c = false := by
    rw [Bool.eq_false_iff]
    intro hblank
    rw [isBlank_iff] at hblank
    simp only [List.mem_cons, List.not_mem_nil, or_false] at hblank
    rcases hblank with rfl | rfl | rfl | rfl <;> exact absurd h (by decide)
  rw [isWordPart, Bool.or_eq_true] at h
  simp only [cut, hpunctuation, hcomparison, hslash, hquote, hblank]
  grind

theorem cut_digit {c : Char} (h : Digit c) (rest : List Char) :
    cut c rest = cutNumber (c :: rest) := by
  rw [cut_wordPart (isWordPart_iff.mpr (.inr h)), if_pos (isDigit_iff.mpr h)]

theorem cut_letter {c : Char} (h : Letter c) (rest : List Char) :
    cut c rest = cutWord (c :: rest) := by
  have hdigit : ¬ c.isDigit = true := fun hdigit => h.not_digit (isDigit_iff.mp hdigit)
  rw [cut_wordPart (isWordPart_iff.mpr (.inl h)), if_neg hdigit]

/-! ## Symbols -/

theorem punctuation_mem {c : Char} {kind : TokenKind} (h : punctuation? c = some kind) :
    ([c], kind) ∈ symbols := by
  unfold punctuation? at h
  split at h <;> cases h <;> decide

theorem comparison_mem {c : Char} {alone withEqual : TokenKind}
    (h : comparison? c = some (alone, withEqual)) :
    ([c], alone) ∈ symbols ∧ ([c, '='], withEqual) ∈ symbols := by
  unfold comparison? at h
  split at h <;> cases h <;> decide

theorem symbol_cases : ∀ entry ∈ symbols,
    entry = (['/'], .slash) ∨
      entry.1 = [entry.1.headD ' '] ∧ punctuation? (entry.1.headD ' ') = some entry.2 ∨
      entry.1 = [entry.1.headD ' '] ∧
        (comparison? (entry.1.headD ' ')).map Prod.fst = some entry.2 ∨
      entry.1 = [entry.1.headD ' ', '='] ∧
        (comparison? (entry.1.headD ' ')).map Prod.snd = some entry.2 := by
  decide

/-! ## What is cut has a form -/

theorem not_mem_takeWhile_ne (c : Char) (text : List Char) :
    c ∉ text.takeWhile (· ≠ c) := by
  intro hmem
  simpa using List.mem_takeWhile_imp hmem

theorem all_ne_of_not_mem {c : Char} {text : List Char} (h : c ∉ text) :
    ∀ d ∈ text, decide (d ≠ c) = true := by
  intro d hd
  apply decide_eq_true
  rintro rfl
  exact h hd

theorem cutOperator_matches {c : Char} {alone withEqual : TokenKind}
    (h : comparison? c = some (alone, withEqual)) (rest : List Char) :
    Matches (cutOperator c alone withEqual rest).1.text
      (cutOperator c alone withEqual rest).1.form := by
  unfold cutOperator
  split
  · exact .symbol (comparison_mem h).2
  · exact .symbol (comparison_mem h).1

theorem cutSlash_matches (rest : List Char) :
    Matches (cutSlash rest).1.text (cutSlash rest).1.form := by
  unfold cutSlash
  split
  · exact .comment (not_mem_takeWhile_ne '\n' _)
  · have hslash : (['/'], TokenKind.slash) ∈ symbols := by decide
    exact .symbol hslash

theorem cutString_matches (rest : List Char) :
    Matches (cutString rest).1.text (cutString rest).1.form ∨
      cutString rest = (⟨'"' :: rest, .unterminatedString⟩, []) := by
  have hparts := List.takeWhile_append_dropWhile (p := (· ≠ '"')) (l := rest)
  unfold cutString
  split
  next hafter =>
    right
    rw [hafter, List.append_nil] at hparts
    rw [hparts]
  next quote rest' hafter =>
    left
    have hquote := List.head_dropWhile_not (fun c => decide (c ≠ '"')) (l := rest)
      (by rw [hafter]; simp)
    simp only [hafter] at hquote
    obtain rfl : quote = '"' := Decidable.of_not_not (of_decide_eq_false hquote)
    exact .string (not_mem_takeWhile_ne '"' rest)

theorem digits_takeWhile {text : List Char} (h : ∃ c rest, text = c :: rest ∧ Digit c) :
    Digits (text.takeWhile Char.isDigit) := by
  obtain ⟨c, rest, rfl, hc⟩ := h
  constructor
  · simp [isDigit_iff.mpr hc]
  · intro d hd
    exact isDigit_iff.mp (List.mem_takeWhile_imp hd)

theorem cutNumber_matches {c : Char} (h : Digit c) (rest : List Char) :
    Matches (cutNumber (c :: rest)).1.text (cutNumber (c :: rest)).1.form := by
  have hwhole := digits_takeWhile ⟨c, rest, rfl, h⟩
  unfold cutNumber spanNumber
  split
  next number after hspan =>
    split at hspan
    next d rest' hafter =>
      split at hspan
      next hd =>
        cases hspan
        exact matches_fraction hwhole (digits_takeWhile ⟨d, rest', rfl, isDigit_iff.mp hd⟩)
      next =>
        cases hspan
        exact matches_whole hwhole
    next =>
      cases hspan
      exact matches_whole hwhole

theorem wordKind_of_mem {word : List Char} {kind : TokenKind}
    (h : (String.ofList word, kind) ∈ reserved) : wordKind word = kind := by
  have hlookup : ∀ entry ∈ reserved, keywords.lookup entry.1 = some entry.2 := by decide
  rw [wordKind, hlookup _ h, Option.getD_some]

theorem wordKind_of_not_mem {word : List Char}
    (h : ∀ kind, (String.ofList word, kind) ∉ reserved) : wordKind word = .identifier := by
  have hreserved : ∀ entry ∈ keywords, entry ∈ reserved := by decide
  have hlookup : keywords.lookup (String.ofList word) = none := by
    rw [List.lookup_eq_none_iff]
    rintro ⟨key, kind⟩ hmem
    rw [bne_iff_ne]
    rintro rfl
    exact h kind (hreserved _ hmem)
  rw [wordKind, hlookup, Option.getD_none]

theorem matches_word {word : List Char} (h : Word word) :
    Matches word (.token (wordKind word) .nil) := by
  by_cases hkeyword : ∃ kind, (String.ofList word, kind) ∈ reserved
  · obtain ⟨kind, hmem⟩ := hkeyword
    rw [wordKind_of_mem hmem]
    exact .keyword h hmem
  · rw [not_exists] at hkeyword
    rw [wordKind_of_not_mem hkeyword]
    exact .identifier h hkeyword

theorem cutWord_matches {c : Char} (h : Letter c) (rest : List Char) :
    Matches (cutWord (c :: rest)).1.text (cutWord (c :: rest)).1.form := by
  apply matches_word
  have hc : isWordPart c = true := isWordPart_iff.mpr (.inl h)
  change Word ((c :: rest).takeWhile isWordPart)
  rw [List.takeWhile_cons, if_pos hc]
  apply Word.intro h
  intro d hd
  exact isWordPart_iff.mp (List.mem_takeWhile_imp hd)

theorem cut_matches (c : Char) (rest : List Char) :
    Matches (cut c rest).1.text (cut c rest).1.form ∨
      (c ≠ '"' ∧ cut c rest = (⟨[c], .unexpectedCharacter⟩, rest)) ∨
      (c = '"' ∧ cut c rest = (⟨'"' :: rest, .unterminatedString⟩, [])) := by
  unfold cut
  split
  next kind _ hkind => exact .inl (.symbol (punctuation_mem hkind))
  next alone withEqual _ hkinds => exact .inl (cutOperator_matches hkinds rest)
  next =>
    by_cases hslash : c = '/'
    · rw [if_pos hslash]
      exact .inl (cutSlash_matches rest)
    rw [if_neg hslash]
    by_cases hblank : isBlank c = true
    · rw [if_pos hblank]
      exact .inl (.blank (isBlank_iff.mp hblank))
    rw [if_neg hblank]
    by_cases hquote : c = '"'
    · rw [if_pos hquote]
      rcases cutString_matches rest with hmatches | hopen
      · exact .inl hmatches
      · exact .inr (.inr ⟨hquote, hopen⟩)
    rw [if_neg hquote]
    by_cases hdigit : c.isDigit = true
    · rw [if_pos hdigit]
      exact .inl (cutNumber_matches (isDigit_iff.mp hdigit) rest)
    rw [if_neg hdigit]
    by_cases hletter : isWordStart c = true
    · rw [if_pos hletter]
      exact .inl (cutWord_matches (isWordStart_iff.mp hletter) rest)
    rw [if_neg hletter]
    exact .inr (.inl ⟨hquote, rfl⟩)

/-! ## What is cut is the longest -/

/-- The lexeme is one, no shorter than the front, and of the same form if it is the same text. -/
structure Outdoes (lexeme : Lexeme) (front : List Char) (form : LexemeForm) : Prop where
  matched : Matches lexeme.text lexeme.form
  length_le : front.length ≤ lexeme.text.length
  form_eq : front = lexeme.text → form = lexeme.form

theorem Outdoes.refl {lexeme : Lexeme} (h : Matches lexeme.text lexeme.form) :
    Outdoes lexeme lexeme.text lexeme.form :=
  ⟨h, Nat.le_refl _, fun _ => rfl⟩

theorem cutOperator_outdoes {c : Char} {alone withEqual : TokenKind}
    (h : comparison? c = some (alone, withEqual)) (rest : List Char) :
    Outdoes (cutOperator c alone withEqual rest).1 [c] (.token alone .nil) := by
  refine ⟨cutOperator_matches h rest, ?_, ?_⟩
  · unfold cutOperator
    split <;> simp
  · unfold cutOperator
    split <;> simp

theorem cutSlash_outdoes (rest : List Char) :
    Outdoes (cutSlash rest).1 ['/'] (.token .slash .nil) := by
  refine ⟨cutSlash_matches rest, ?_, ?_⟩
  · unfold cutSlash
    split <;> simp
  · unfold cutSlash
    split <;> simp

theorem symbol_outdone {text back rest : List Char} {kind : TokenKind} {c : Char}
    (h : (text, kind) ∈ symbols) (htext : text ++ back = c :: rest) :
    Outdoes (cut c rest).1 text (.token kind .nil) := by
  have hcases := symbol_cases _ h
  dsimp only at hcases
  generalize text.headD ' ' = d at hcases
  rcases hcases with hslash | ⟨rfl, hkind⟩ | ⟨rfl, hkind⟩ | ⟨rfl, hkind⟩
  · cases hslash
    obtain ⟨rfl, rfl⟩ := List.cons.inj htext
    exact cutSlash_outdoes _
  · obtain ⟨rfl, rfl⟩ := List.cons.inj htext
    rw [cut_punctuation hkind]
    exact .refl (.symbol h)
  · obtain ⟨rfl, rfl⟩ := List.cons.inj htext
    obtain ⟨⟨alone, withEqual⟩, hkinds, rfl⟩ := Option.map_eq_some_iff.mp hkind
    rw [cut_comparison hkinds]
    exact cutOperator_outdoes hkinds _
  · obtain ⟨rfl, rfl⟩ := List.cons.inj htext
    obtain ⟨⟨alone, withEqual⟩, hkinds, rfl⟩ := Option.map_eq_some_iff.mp hkind
    rw [cut_comparison hkinds]
    exact .refl (.symbol h)

theorem cutSlash_outdoes_comment {content back : List Char} (h : '\n' ∉ content) :
    Outdoes (cutSlash ('/' :: content ++ back)).1 ('/' :: '/' :: content) .comment := by
  have hcontent := all_ne_of_not_mem h
  refine ⟨cutSlash_matches _, ?_, fun _ => rfl⟩
  rw [List.cons_append, cutSlash, List.takeWhile_append_of_pos hcontent]
  simp

theorem cutString_closed {content : List Char} (h : '"' ∉ content) (back : List Char) :
    cutString (content ++ '"' :: back) =
      (⟨'"' :: content ++ ['"'], .token .string (.string (String.ofList content))⟩, back) := by
  have hcontent := all_ne_of_not_mem h
  unfold cutString
  rw [List.takeWhile_append_of_pos hcontent, List.dropWhile_append_of_pos hcontent]
  simp

theorem Digits.head {digits back rest : List Char} {c : Char} (h : Digits digits)
    (htext : digits ++ back = c :: rest) : Digit c := by
  obtain ⟨d, more, rfl⟩ := List.exists_cons_of_ne_nil h.1
  obtain ⟨rfl, _⟩ := List.cons.inj htext
  exact h.2 d (by simp)

theorem spanNumber_whole {digits : List Char} (h : Digits digits) (back : List Char) :
    digits <+: (spanNumber (digits ++ back)).1 := by
  have hwhole : digits <+: (digits ++ back).takeWhile Char.isDigit := by
    rw [takeWhile_isDigit_append h]
    exact List.prefix_append _ _
  unfold spanNumber
  split
  next =>
    split
    next => exact hwhole.trans (List.prefix_append _ _)
    next => exact hwhole
  next => exact hwhole

theorem spanNumber_fraction {digits decimals : List Char} (h : Digits digits)
    (h' : Digits decimals) (back : List Char) :
    digits ++ '.' :: decimals <+: (spanNumber (digits ++ '.' :: decimals ++ back)).1 := by
  obtain ⟨d, more, rfl⟩ := List.exists_cons_of_ne_nil h'.1
  have hd : d.isDigit = true := isDigit_iff.mpr (h'.2 d (by simp))
  have hpoint : ¬ Char.isDigit '.' = true := by decide
  have htake := takeWhile_isDigit_append h' back
  rw [List.append_assoc, spanNumber, takeWhile_isDigit_append h, dropWhile_isDigit_append h]
  simp only [List.cons_append, List.takeWhile_cons_of_neg hpoint,
    List.dropWhile_cons_of_neg hpoint, List.append_nil, hd, if_true] at htake ⊢
  rw [htake]
  simp

theorem cutNumber_outdoes {c : Char} {rest front : List Char} (h : Digit c)
    (hfront : front <+: (spanNumber (c :: rest)).1) :
    Outdoes (cutNumber (c :: rest)).1 front
      (.token .number (.number (Number.ofDigitText front))) := by
  refine ⟨cutNumber_matches h rest, hfront.length_le, ?_⟩
  intro htext
  rw [htext]
  rfl

theorem cutWord_outdoes {c : Char} {rest : List Char} (h : Word (c :: rest)) (back : List Char) :
    Outdoes (cutWord (c :: rest ++ back)).1 (c :: rest)
      (.token (wordKind (c :: rest)) .nil) := by
  cases h with
  | intro hletter hrest =>
      have hword : ∀ d ∈ c :: rest, isWordPart d = true := by
        intro d hd
        rw [isWordPart_iff]
        cases hd with
        | head => exact .inl hletter
        | tail _ hd => exact hrest d hd
      have htext : (cutWord (c :: rest ++ back)).1.text =
          c :: rest ++ back.takeWhile isWordPart := List.takeWhile_append_of_pos hword
      refine ⟨cutWord_matches hletter (rest ++ back), ?_, ?_⟩
      · rw [htext, List.length_append]
        omega
      · intro hfront
        exact congrArg (fun word => LexemeForm.token (wordKind word) .nil) hfront

theorem Word.outdone {word back rest : List Char} {c : Char} (h : Word word)
    (htext : word ++ back = c :: rest) :
    Outdoes (cut c rest).1 word (.token (wordKind word) .nil) := by
  have hword := h
  obtain ⟨hletter, _⟩ := h
  obtain ⟨rfl, rfl⟩ := List.cons.inj htext
  rw [cut_letter hletter]
  exact cutWord_outdoes hword back

theorem Matches.outdone {front back rest : List Char} {form : LexemeForm} {c : Char}
    (h : Matches front form) (htext : front ++ back = c :: rest) :
    Outdoes (cut c rest).1 front form := by
  cases h with
  | symbol hmem => exact symbol_outdone hmem htext
  | comment hcontent =>
      obtain ⟨rfl, rfl⟩ := List.cons.inj htext
      exact cutSlash_outdoes_comment hcontent
  | blank hblank =>
      obtain ⟨rfl, rfl⟩ := List.cons.inj htext
      rw [cut_blank hblank]
      exact .refl (.blank hblank)
  | @string content hcontent =>
      obtain ⟨rfl, rfl⟩ := List.cons.inj htext
      change Outdoes (cutString (content ++ ['"'] ++ back)).1 _ _
      rw [List.append_assoc, List.singleton_append, cutString_closed hcontent]
      exact .refl (.string hcontent)
  | whole hdigits hnearest =>
      obtain rfl := (isNearest_whole hdigits).mp hnearest
      have hfront := spanNumber_whole hdigits back
      rw [htext] at hfront
      have hc := hdigits.head htext
      rw [cut_digit hc]
      exact cutNumber_outdoes hc hfront
  | fraction hdigits hdecimals hnearest =>
      obtain rfl := (isNearest_fraction hdigits).mp hnearest
      have hfront := spanNumber_fraction hdigits hdecimals back
      rw [htext] at hfront
      rw [List.append_assoc] at htext
      have hc := hdigits.head htext
      rw [cut_digit hc]
      exact cutNumber_outdoes hc hfront
  | keyword hword hmem =>
      rw [← wordKind_of_mem hmem]
      exact hword.outdone htext
  | identifier hword hnone =>
      rw [← wordKind_of_not_mem hnone]
      exact hword.outdone htext

end LoxLang.Lexing

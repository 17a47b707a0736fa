import LoxLang.Proofs.Lexing.LongestMatch

/-!
# The one decomposition of a source

Every text has one decomposition into longest lexemes, and scanning a source finds
it: the tokens, the mistakes and their lines are those of its lexemes.
-/

namespace LoxLang.Lexing

open Lexeme

theorem noneMatches_iff {c : Char} {rest : List Char} :
    NoneMatches (c :: rest) ↔ ¬ Matches (cut c rest).1.text (cut c rest).1.form := by
  constructor
  · intro h
    exact h _ _ ⟨_, cut_append c rest⟩
  · rintro h front form ⟨back, htext⟩ hmatches
    exact h (hmatches.outdone htext).matched

theorem first_cut (c : Char) (rest : List Char) :
    First (c :: rest) (cut c rest).1 (cut c rest).2 := by
  by_cases hmatches : Matches (cut c rest).1.text (cut c rest).1.form
  · refine .longest (cut_append c rest).symm hmatches ?_
    rintro front form ⟨back, htext⟩ hfront
    exact (hfront.outdone htext).length_le
  · have hnone := noneMatches_iff.mpr hmatches
    rcases cut_matches c rest with hcut | ⟨hquote, hcut⟩ | ⟨rfl, hcut⟩
    · exact absurd hcut hmatches
    · rw [hcut]
      exact .unexpected hnone hquote
    · rw [hcut]
      exact .unterminated hnone

theorem First.eq_cut {c : Char} {rest after : List Char} {lexeme : Lexeme}
    (h : First (c :: rest) lexeme after) : cut c rest = (lexeme, after) := by
  cases h with
  | longest htext hmatches hlongest =>
      have houtdoes := hmatches.outdone htext.symm
      have hlength := hlongest _ _ ⟨_, cut_append c rest⟩ houtdoes.matched
      -- The lexeme and what is cut start the same text and are equally long.
      have hparts := (cut_append c rest).trans htext
      obtain ⟨hsame, hafter⟩ := List.append_inj hparts
        (Nat.le_antisymm hlength houtdoes.length_le)
      have hform := houtdoes.form_eq hsame.symm
      generalize cut c rest = taken at hsame hafter hform ⊢
      obtain ⟨⟨text', form'⟩, after'⟩ := taken
      obtain ⟨text, form⟩ := lexeme
      cases hsame
      cases hafter
      cases hform
      rfl
  | unexpected hnone hquote =>
      rcases cut_matches c rest with hcut | ⟨_, hcut⟩ | ⟨hquote', _⟩
      · exact absurd hcut (noneMatches_iff.mp hnone)
      · exact hcut
      · exact absurd hquote' hquote
  | unterminated hnone =>
      rcases cut_matches '"' rest with hcut | ⟨hquote, _⟩ | ⟨_, hcut⟩
      · exact absurd hcut (noneMatches_iff.mp hnone)
      · exact absurd rfl hquote
      · exact hcut

theorem First.text_ne_nil {text rest : List Char} {lexeme : Lexeme} (h : First text lexeme rest) :
    text ≠ [] := by
  cases h with
  | longest htext hmatches _ =>
      rw [htext]
      simp [hmatches.ne_nil]
  | unexpected => simp
  | unterminated => simp

theorem decomposes_iff {text : List Char} {lexemes : List Lexeme} :
    Decomposes text lexemes ↔ lexemes = ofText text := by
  fun_induction ofText text generalizing lexemes with
  | case1 =>
      constructor
      · intro h
        cases h with
        | nil => rfl
        | cons hfirst _ => exact absurd rfl hfirst.text_ne_nil
      · rintro rfl
        exact .nil
  | case2 c rest ih =>
      constructor
      · intro h
        cases h with
        | cons hfirst hrest =>
            have hcut := hfirst.eq_cut
            rw [hcut] at ih ⊢
            rw [ih.mp hrest]
      · rintro rfl
        exact .cons (first_cut c rest) (ih.mpr rfl)

theorem Matches.ofText {text : List Char} {form : LexemeForm} (h : Matches text form) :
    ofText text = [⟨text, form⟩] := by
  have hfirst : First text ⟨text, form⟩ [] :=
    .longest (List.append_nil text).symm h fun _ _ hprefix _ => hprefix.length_le
  exact (decomposes_iff.mp (.cons hfirst .nil)).symm

theorem withLines_eq_mapIdx (line : Nat) (lexemes : List Lexeme) :
    withLines line lexemes = lexemes.mapIdx fun i lexeme =>
      (lexeme, line + newlines ((lexemes.take (i + 1)).flatMap Lexeme.text)) := by
  induction lexemes generalizing line with
  | nil => rfl
  | cons lexeme rest ih =>
      rw [withLines, List.mapIdx_cons, ih]
      simp [newlines, Nat.add_assoc]

/-! ## Scanning a source -/

theorem tokens_eq_filterMap (lexemes : List (Lexeme × Nat)) :
    tokens lexemes = lexemes.filterMap fun (lexeme, line) => lexeme.token? line := by
  induction lexemes with
  | nil => rfl
  | cons entry rest ih =>
      obtain ⟨⟨text, form⟩, line⟩ := entry
      cases form <;> simp [tokens, token?, ih]

theorem problems_eq_filterMap (lexemes : List (Lexeme × Nat)) :
    problems lexemes = lexemes.filterMap fun (lexeme, line) => lexeme.problem? line := by
  induction lexemes with
  | nil => rfl
  | cons entry rest ih =>
      obtain ⟨⟨text, form⟩, line⟩ := entry
      cases form <;>
        simp [problems, problem?, Diagnostic.lexical, Diagnostic.lexicalKind, ih]

theorem First.token_kind {text rest : List Char} {segment : List Char} {kind : TokenKind}
    {literal : Value} (h : First text ⟨segment, .token kind literal⟩ rest) : kind ≠ .eof := by
  cases h with
  | longest _ hmatches _ => exact hmatches.kind_ne_eof

theorem Decomposes.token_kind {text segment : List Char} {lexemes : List Lexeme}
    {kind : TokenKind} {literal : Value} (h : Decomposes text lexemes)
    (hmem : ⟨segment, .token kind literal⟩ ∈ lexemes) : kind ≠ .eof := by
  induction h with
  | nil => cases hmem
  | cons hfirst _ ih =>
      cases hmem with
      | head => exact hfirst.token_kind
      | tail _ hmem => exact ih hmem

theorem mem_tokens {lexemes : List (Lexeme × Nat)} {token : Token} (h : token ∈ tokens lexemes) :
    ∃ text line, (⟨text, .token token.kind token.literal⟩, line) ∈ lexemes := by
  induction lexemes with
  | nil => cases h
  | cons entry rest ih =>
      obtain ⟨⟨text, form⟩, line⟩ := entry
      cases form with
      | token kind literal =>
          cases h with
          | head => exact ⟨text, line, .head _⟩
          | tail _ h =>
              obtain ⟨text', line', hmem⟩ := ih h
              exact ⟨text', line', .tail _ hmem⟩
      | _ =>
          obtain ⟨text', line', hmem⟩ := ih h
          exact ⟨text', line', .tail _ hmem⟩

theorem of_mem_located {lexemes : List Lexeme} {lexeme : Lexeme} {line : Nat}
    (h : (lexeme, line) ∈ located lexemes) : lexeme ∈ lexemes := by
  obtain ⟨i, hi, hlexeme⟩ := List.mem_mapIdx.mp h
  cases hlexeme
  exact List.getElem_mem hi

theorem located_eq_withLines (lexemes : List Lexeme) : located lexemes = withLines 1 lexemes :=
  (withLines_eq_mapIdx 1 lexemes).symm

/--
A source has one decomposition.  Its tokens are those of the lexemes that are
tokens, in order and closed by the one end token, and its problems are those of
the lexemes that are mistakes; each stands on the line on which its lexeme ends.
-/
theorem scan_decomposes (source : String) :
    ∃ lexemes,
      (∀ other, Decomposes source.toList other ↔ other = lexemes) ∧
      lexemes.flatMap Lexeme.text = source.toList ∧
      (scan source).text.body = tokens (located lexemes) ∧
      (∀ token ∈ (scan source).text.body, token.kind ≠ .eof) ∧
      (scan source).text.ending = ⟨.eof, "", .nil, 1 + source.toList.count '\n'⟩ ∧
      (scan source).problems = problems (located lexemes) := by
  have hbody : (scan source).text.body = tokens (located (ofText source.toList)) := by
    rw [tokens_eq_filterMap, located_eq_withLines]
    rfl
  refine ⟨ofText source.toList, fun _ => decomposes_iff, flatMap_ofText _, hbody, ?_, ?_, ?_⟩
  · intro token hmem
    rw [hbody] at hmem
    obtain ⟨text, line, hlexeme⟩ := mem_tokens hmem
    exact (decomposes_iff.mpr rfl).token_kind (of_mem_located hlexeme)
  · simp [scan, Token.ending, Token.bare, newlines]
  · rw [problems_eq_filterMap, located_eq_withLines]
    rfl

/-- Half way between two doubles; the one with even bits is read. -/
def tieSource : String := "9007199254740993"

theorem scan_decomposes_tie :
    Number.IsNearest 9007199254740992 9007199254740993 ∧
      Decomposes tieSource.toList [⟨tieSource.toList, .token .number (.number 9007199254740992)⟩] ∧
      (scan tieSource).text.body = [⟨.number, tieSource, .number 9007199254740992, 1⟩] := by
  have hdigits : Digits tieSource.toList := by
    simp [tieSource, Digits, Digit]
  have hnumeral : numeral tieSource.toList [] = 9007199254740993 := by
    have hdigitsValue : Nat.ofDigitChars 10 tieSource.toList 0 = 9007199254740993 := by decide
    simp [numeral, hdigitsValue]
  have hread : (9007199254740992 : Float) = Number.ofDigitText tieSource.toList := by
    decide +kernel
  have hnearest := (isNearest_whole hdigits).mpr hread
  have hfirst : First tieSource.toList
      ⟨tieSource.toList, .token .number (.number 9007199254740992)⟩ [] :=
    .longest (List.append_nil _).symm (.whole hdigits hnearest)
      fun _ _ hprefix _ => hprefix.length_le
  have hdecomposes := Decomposes.cons hfirst .nil
  obtain ⟨lexemes, hunique, -, hbody, -⟩ := scan_decomposes tieSource
  obtain rfl := (hunique _).mp hdecomposes
  exact ⟨hnumeral ▸ hnearest, hdecomposes, hbody.trans rfl⟩

end LoxLang.Lexing

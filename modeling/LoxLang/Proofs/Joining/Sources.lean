import LoxLang.Proofs.Lexing.Blanks

/-!
# Scanning goes on after a newline

A lexeme that ends in front of a newline is cut the same whatever stands behind the
newline; only a string that is left open would go on.  So behind a source without
mistakes and a newline scanning starts anew, and just the lines have moved on.
-/

namespace LoxLang

def Token.later (lines : Nat) (token : Token) : Token :=
  { token with line := token.line + lines }

def Diagnostic.later (lines : Nat) (diagnostic : Diagnostic) : Diagnostic :=
  { diagnostic with line := diagnostic.line + lines }

namespace Lexeme

theorem ofText_newline {front : List Char}
    (h : ∀ lexeme ∈ ofText front, lexeme.form ≠ .unterminatedString) (back : List Char) :
    ofText (front ++ '\n' :: back) = ofText front ++ ⟨['\n'], .blank⟩ :: ofText back := by
  have hnewline : '\n' ∈ [' ', '\r', '\t', '\n'] := by decide
  have hblank : ofText ('\n' :: back) = ⟨['\n'], .blank⟩ :: ofText back := by
    rw [ofText]
    rfl
  rcases ofText_in_front_of_blank hnewline h back with hlexemes | ⟨shown, text, hfront, hlexemes⟩
  · rw [hlexemes, hblank]
  · -- A comment at the end of the front does not go on.
    rw [hlexemes, hfront]
    simp [hblank]

/-! ## Lines -/

theorem withLines_append (line : Nat) (front back : List Lexeme) :
    withLines line (front ++ back) =
      withLines line front ++ withLines (line + newlines (front.flatMap Lexeme.text)) back := by
  induction front generalizing line with
  | nil => simp [withLines, newlines]
  | cons lexeme rest ih => simp [withLines, ih, newlines, Nat.add_assoc]

theorem withLines_add (line lines : Nat) (lexemes : List Lexeme) :
    withLines (line + lines) lexemes =
      (withLines line lexemes).map fun (lexeme, last) => (lexeme, last + lines) := by
  induction lexemes generalizing line with
  | nil => rfl
  | cons lexeme rest ih =>
      have hlast : line + lines + newlines lexeme.text = line + newlines lexeme.text + lines := by
        omega
      simp only [withLines, hlast, ih, List.map_cons]

theorem exists_mem_withLines {lexeme : Lexeme} {lexemes : List Lexeme} (h : lexeme ∈ lexemes)
    (line : Nat) : ∃ last, (lexeme, last) ∈ withLines line lexemes := by
  induction lexemes generalizing line with
  | nil => cases h
  | cons first rest ih =>
      cases h with
      | head => exact ⟨_, .head _⟩
      | tail _ h =>
          obtain ⟨last, hlast⟩ := ih h _
          exact ⟨last, .tail _ hlast⟩

theorem token_add (lexeme : Lexeme) (line lines : Nat) :
    lexeme.token? (line + lines : Nat) = (lexeme.token? line).map (Token.later lines) := by
  unfold token?
  split <;> simp [Token.later]

theorem problem_add (lexeme : Lexeme) (line lines : Nat) :
    lexeme.problem? (line + lines : Nat) = (lexeme.problem? line).map (Diagnostic.later lines) := by
  unfold problem?
  split <;> simp [Diagnostic.later, Diagnostic.lexical]

theorem withLines_newline {front : List Char}
    (h : ∀ lexeme ∈ ofText front, lexeme.form ≠ .unterminatedString) (back : List Char) :
    withLines 1 (ofText (front ++ '\n' :: back)) =
      withLines 1 (ofText front) ++ (⟨['\n'], .blank⟩, 1 + newlines front + 1) ::
        (withLines 1 (ofText back)).map fun (lexeme, last) =>
          (lexeme, last + (newlines front + 1)) := by
  have hline : 1 + newlines front + 1 = 1 + (newlines front + 1) := by omega
  rw [ofText_newline h, withLines_append, flatMap_ofText, withLines]
  simp only [newlines, List.count_singleton_self] at hline ⊢
  rw [hline, withLines_add]

end Lexeme

open Lexeme

theorem form_ne_unterminatedString {source : String} (h : (scan source).problems = []) :
    ∀ lexeme ∈ ofText source.toList, lexeme.form ≠ .unterminatedString := by
  intro lexeme hmem hform
  obtain ⟨last, hlast⟩ := exists_mem_withLines hmem 1
  have hnone := List.filterMap_eq_nil_iff.mp h _ hlast
  simp [problem?, hform] at hnone

/-- Behind a source without mistakes and a newline, a source is scanned as it is alone. -/
theorem scan_newline {front back joined : String} (h : (scan front).problems = [])
    (hjoined : joined.toList = front.toList ++ '\n' :: back.toList) :
    (scan joined).text.body = (scan front).text.body ++
        (scan back).text.body.map (Token.later (newlines front.toList + 1)) ∧
      (scan joined).problems =
        (scan back).problems.map (Diagnostic.later (newlines front.toList + 1)) := by
  have hlines := withLines_newline (form_ne_unterminatedString h) back.toList
  rw [← hjoined] at hlines
  simp only [scan] at h ⊢
  rw [hlines]
  simp only [List.filterMap_append, List.filterMap_cons, List.filterMap_map, h, List.nil_append,
    List.map_filterMap, Function.comp_def, token_add, problem_add]
  exact ⟨rfl, rfl⟩

end LoxLang

import Mathlib.Data.List.DropRight
import LoxLang.Proofs.Joining.Sources

/-!
# Layout between lexemes

Layout that is put in where a lexeme starts becomes blanks and comments, or goes on with
a comment that ends there.  The lexemes that are tokens or mistakes stay as they are, and
those behind the layout are as many lines further down as it has newlines.
-/

namespace LoxLang

open Lexing

/-- Blanks, and comments that newlines close. -/
inductive Layout : List Char → Prop
  | nil : Layout []
  | blank {c rest} : c ∈ [' ', '\r', '\t', '\n'] → Layout rest → Layout (c :: rest)
  | comment {content rest} :
      '\n' ∉ content → Layout rest → Layout ('/' :: '/' :: content ++ '\n' :: rest)

/-- A lexeme starts where the texts meet, or the first ends there and leaves no string open. -/
inductive Meet (front back : List Char) : Prop
  | inside {lexemes others} :
      Lexeme.ofText (front ++ back) = lexemes ++ others → lexemes.flatMap Lexeme.text = front →
      others ≠ [] → Meet front back
  | atEnd :
      back = [] → (∀ lexeme ∈ Lexeme.ofText front, lexeme.form ≠ .unterminatedString) →
      Meet front back

namespace Lexeme

def IsLayout (lexeme : Lexeme) : Prop :=
  lexeme.form = .blank ∨ lexeme.form = .comment

theorem newlines_append (front back : List Char) :
    newlines (front ++ back) = newlines front + newlines back :=
  List.count_append

end Lexeme

open Lexeme

/-! ## The lexemes of layout -/

theorem Layout.ofText_append {text : List Char} (h : Layout text) (back : List Char) :
    ∃ lexemes, (∀ lexeme ∈ lexemes, lexeme.IsLayout) ∧ lexemes.flatMap Lexeme.text = text ∧
      ofText (text ++ back) = lexemes ++ ofText back := by
  induction h with
  | nil => exact ⟨[], by simp, rfl, rfl⟩
  | @blank c rest hc _ ih =>
      obtain ⟨lexemes, hlayout, htext, hlexemes⟩ := ih
      refine ⟨⟨[c], .blank⟩ :: lexemes, ?_, by simp [htext], ?_⟩
      · exact List.forall_mem_cons.mpr ⟨.inl rfl, hlayout⟩
      · rw [List.cons_append, ofText, cut_blank hc, hlexemes, List.cons_append]
  | @comment content rest hcontent _ ih =>
      obtain ⟨lexemes, hlayout, htext, hlexemes⟩ := ih
      have hnewline : '\n' ∈ [' ', '\r', '\t', '\n'] := by decide
      refine ⟨⟨'/' :: '/' :: content, .comment⟩ :: ⟨['\n'], .blank⟩ :: lexemes, ?_, ?_, ?_⟩
      · exact List.forall_mem_cons.mpr ⟨.inr rfl, List.forall_mem_cons.mpr ⟨.inl rfl, hlayout⟩⟩
      · simp [htext]
      · have hwhole : '/' :: '/' :: content ++ '\n' :: rest ++ back =
            '/' :: ('/' :: content ++ '\n' :: (rest ++ back)) := by
          simp
        rw [hwhole, ofText, cut_closed_comment hcontent, ofText, cut_blank hnewline, hlexemes]
        rfl

theorem Layout.dropWhile_append {text back : List Char} (h : Layout text)
    (hback : back.dropWhile (· ≠ '\n') = back) :
    ∃ rest, Layout rest ∧ newlines rest = newlines text ∧
      (text ++ back).dropWhile (· ≠ '\n') = rest ++ back := by
  induction h with
  | nil => exact ⟨[], .nil, rfl, hback⟩
  | @blank c rest hc hrest ih =>
      by_cases hnewline : c = '\n'
      · subst hnewline
        exact ⟨'\n' :: rest, .blank hc hrest, rfl, rfl⟩
      · obtain ⟨rest', hlayout, hlines, hdrop⟩ := ih
        refine ⟨rest', hlayout, ?_, ?_⟩
        · rw [hlines, newlines, newlines, List.count_cons_of_ne hnewline]
        · rw [← hdrop]
          simp [hnewline]
  | @comment content rest hcontent hrest ih =>
      have hnewline : '\n' ∈ [' ', '\r', '\t', '\n'] := by decide
      refine ⟨'\n' :: rest, .blank hnewline hrest, ?_, ?_⟩
      · simp [newlines, List.count_eq_zero.mpr hcontent]
      · have hall := all_ne_of_not_mem hcontent
        rw [List.append_assoc, List.cons_append, List.cons_append]
        simp only [List.dropWhile_cons]
        rw [List.dropWhile_append_of_pos hall]
        rfl

/-! ## Where the texts meet -/

theorem Meet.ofText_append {front back : List Char} (h : Meet front back) :
    ofText (front ++ back) = ofText front ++ ofText back ∧
      ∀ lexeme ∈ ofText front, lexeme.form ≠ .unterminatedString := by
  cases h with
  | inside hlexemes hfront hothers =>
      have hwhole := decomposes_iff.mpr hlexemes.symm
      have hstring := hwhole.form_ne_unterminatedString hothers
      rw [← hfront] at hwhole
      obtain ⟨hbefore, hbehind⟩ := hwhole.of_append
      rw [hfront] at hbefore
      rw [hlexemes, ← decomposes_iff.mp hbefore, ← decomposes_iff.mp hbehind]
      exact ⟨rfl, hstring⟩
  | atEnd hback hstring =>
      rw [hback, ofText, List.append_nil, List.append_nil]
      exact ⟨rfl, hstring⟩

theorem Lexing.First.comment_stops {text segment rest : List Char}
    (h : First text ⟨segment, .comment⟩ rest) : rest.dropWhile (· ≠ '\n') = rest := by
  obtain ⟨c, others, rfl⟩ := List.exists_cons_of_ne_nil h.text_ne_nil
  have hcut := h.eq_cut
  have hform : (cut c others).1.form = .comment := by rw [hcut]
  obtain ⟨content, rfl, rfl⟩ := cut_comment hform
  have hrest : content.dropWhile (· ≠ '\n') = rest := congrArg Prod.snd hcut
  rw [← hrest, List.dropWhile_idempotent]

theorem Meet.comment_stops {front back comment : List Char} {shown : List Lexeme}
    (h : Meet front back) (hfront : ofText front = shown ++ [⟨comment, .comment⟩]) :
    back.dropWhile (· ≠ '\n') = back := by
  have htogether := h.ofText_append.1
  have htext := flatMap_ofText front
  rw [hfront, List.flatMap_append, List.flatMap_singleton] at htext
  rw [hfront, ← htext, List.append_assoc, List.append_assoc] at htogether
  have hbehind := (decomposes_iff.mpr htogether.symm).of_append.2
  change Decomposes (comment ++ back) (⟨comment, .comment⟩ :: ofText back) at hbehind
  generalize hwhole : comment ++ back = whole at hbehind
  cases hbehind with
  | cons hfirst hrest =>
      have hparts := hwhole.trans hfirst.eq_append
      rw [List.append_cancel_left hparts]
      exact hfirst.comment_stops

/-- Layout between two texts changes the lexemes there, and these are layout before and after. -/
theorem Meet.ofText_layout {front back layout : List Char} {c : Char} (h : Meet front back)
    (hc : c ∈ [' ', '\r', '\t', '\n']) (hlayout : Layout layout) :
    ∃ shown hidden hidden',
      (∀ lexeme ∈ hidden, lexeme.IsLayout) ∧ (∀ lexeme ∈ hidden', lexeme.IsLayout) ∧
      ofText front = shown ++ hidden ∧
      ofText (front ++ back) = shown ++ hidden ++ ofText back ∧
      ofText (front ++ c :: layout ++ back) = shown ++ hidden' ++ ofText back ∧
      newlines (hidden'.flatMap Lexeme.text) =
        newlines (hidden.flatMap Lexeme.text) + newlines (c :: layout) := by
  obtain ⟨htogether, hstring⟩ := h.ofText_append
  have hwhole := Layout.blank hc hlayout
  rw [List.append_assoc, List.cons_append]
  rcases ofText_in_front_of_blank hc hstring (layout ++ back) with
    happart | ⟨shown, comment, hfront, hgrown⟩
  · obtain ⟨hidden, hhidden, htext, hlexemes⟩ := hwhole.ofText_append back
    rw [List.cons_append] at hlexemes
    refine ⟨ofText front, [], hidden, by simp, hhidden, by simp, by simpa using htogether, ?_, ?_⟩
    · rw [happart, hlexemes, List.append_assoc]
    · rw [htext]
      simp [newlines]
  · -- The comment takes in the layout up to the first newline, and layout is left behind it.
    obtain ⟨rest, hrest, hlines, hdrop⟩ := hwhole.dropWhile_append (h.comment_stops hfront)
    obtain ⟨hidden, hhidden, htext, hlexemes⟩ := hrest.ofText_append back
    rw [List.cons_append] at hdrop
    rw [hdrop, hlexemes] at hgrown
    refine ⟨shown, [⟨comment, .comment⟩],
      ⟨comment ++ (c :: (layout ++ back)).takeWhile (· ≠ '\n'), .comment⟩ :: hidden,
      ?_, ?_, hfront, ?_, ?_, ?_⟩
    · simp [IsLayout]
    · exact List.forall_mem_cons.mpr ⟨.inr rfl, hhidden⟩
    · rw [htogether, hfront]
    · rw [hgrown, List.append_assoc]
      rfl
    · have hline : newlines ((c :: (layout ++ back)).takeWhile (· ≠ '\n')) = 0 :=
        List.count_eq_zero.mpr (not_mem_takeWhile_ne _ _)
      rw [List.flatMap_cons, newlines_append, newlines_append, hline, htext, hlines,
        List.flatMap_singleton, Nat.add_zero]

/-! ## Tokens and mistakes -/

section

variable {α : Type} {pick : Lexeme → Nat → Option α}

/-- What is picked from lexemes, the first of which starts on the given line. -/
def picked (pick : Lexeme → Nat → Option α) (line : Nat) (lexemes : List Lexeme) : List α :=
  (withLines line lexemes).filterMap fun (lexeme, last) => pick lexeme last

theorem picked_append (line : Nat) (front back : List Lexeme) :
    picked pick line (front ++ back) =
      picked pick line front ++ picked pick (line + newlines (front.flatMap Lexeme.text)) back := by
  rw [picked, withLines_append, List.filterMap_append]
  rfl

theorem picked_add {later : Nat → α → α}
    (hlater : ∀ lexeme line lines, pick lexeme (line + lines) =
      (pick lexeme line).map (later lines)) (line lines : Nat) (lexemes : List Lexeme) :
    picked pick (line + lines) lexemes = (picked pick line lexemes).map (later lines) := by
  rw [picked, withLines_add, List.filterMap_map, picked, List.map_filterMap]
  simp only [Function.comp_def, hlater]

theorem picked_eq_nil (hnone : ∀ lexeme line, lexeme.IsLayout → pick lexeme line = none)
    {lexemes : List Lexeme} (h : ∀ lexeme ∈ lexemes, lexeme.IsLayout) (line : Nat) :
    picked pick line lexemes = [] := by
  induction lexemes generalizing line with
  | nil => rfl
  | cons lexeme rest ih =>
      obtain ⟨hfirst, hrest⟩ := List.forall_mem_cons.mp h
      have hpick := hnone lexeme (line + newlines lexeme.text) hfirst
      simp only [picked, withLines, List.filterMap_cons, hpick]
      exact ih hrest _

theorem Meet.picked_layout {front back layout : List Char} {c : Char} (h : Meet front back)
    (hc : c ∈ [' ', '\r', '\t', '\n']) (hlayout : Layout layout)
    (hnone : ∀ lexeme line, lexeme.IsLayout → pick lexeme line = none) {later : Nat → α → α}
    (hlater : ∀ lexeme line lines, pick lexeme (line + lines) =
      (pick lexeme line).map (later lines)) :
    ∃ behind,
      picked pick 1 (ofText (front ++ back)) = picked pick 1 (ofText front) ++ behind ∧
      picked pick 1 (ofText (front ++ c :: layout ++ back)) =
        picked pick 1 (ofText front) ++ behind.map (later (newlines (c :: layout))) := by
  obtain ⟨shown, hidden, hidden', hhidden, hhidden', hfront, hwhole, hspaced, hlines⟩ :=
    h.ofText_layout hc hlayout
  have hsilent := picked_eq_nil hnone hhidden
  have hsilent' := picked_eq_nil hnone hhidden'
  refine ⟨picked pick (1 + newlines front) (ofText back), ?_, ?_⟩
  · rw [hwhole, ← hfront, picked_append, flatMap_ofText]
  · have hcount : 1 + newlines ((shown ++ hidden').flatMap Lexeme.text) =
        1 + newlines front + newlines (c :: layout) := by
      have htext := flatMap_ofText front
      rw [hfront, List.flatMap_append] at htext
      rw [← htext, List.flatMap_append, newlines_append, newlines_append, hlines]
      omega
    rw [hspaced, hfront, picked_append, hcount, picked_append, picked_append, hsilent, hsilent',
      picked_add hlater]

end

theorem body_scan (text : List Char) :
    (scan (String.ofList text)).text.body = picked token? 1 (ofText text) := by
  rw [scan, String.toList_ofList]
  rfl

theorem problems_scan (text : List Char) :
    (scan (String.ofList text)).problems = picked problem? 1 (ofText text) := by
  rw [scan, String.toList_ofList]
  rfl

theorem ending_scan (text : List Char) :
    (scan (String.ofList text)).text.ending = Token.ending (1 + newlines text : Nat) := by
  rw [scan, String.toList_ofList]

theorem scan_layout {front back layout : List Char} {c : Char} (h : Meet front back)
    (hc : c ∈ [' ', '\r', '\t', '\n']) (hlayout : Layout layout) :
    ∃ tokens problems,
      (scan (String.ofList (front ++ back))).text.body =
        (scan (String.ofList front)).text.body ++ tokens ∧
      (scan (String.ofList (front ++ c :: layout ++ back))).text.body =
        (scan (String.ofList front)).text.body ++
          tokens.map (Token.later (newlines (c :: layout))) ∧
      (scan (String.ofList (front ++ c :: layout ++ back))).text.ending =
        (scan (String.ofList (front ++ back))).text.ending.later (newlines (c :: layout)) ∧
      (scan (String.ofList (front ++ back))).problems =
        (scan (String.ofList front)).problems ++ problems ∧
      (scan (String.ofList (front ++ c :: layout ++ back))).problems =
        (scan (String.ofList front)).problems ++
          problems.map (Diagnostic.later (newlines (c :: layout))) := by
  have htoken : ∀ lexeme (line : Nat), lexeme.IsLayout → token? lexeme line = none := by
    rintro ⟨text, form⟩ line (rfl | rfl) <;> rfl
  have hproblem : ∀ lexeme (line : Nat), lexeme.IsLayout → problem? lexeme line = none := by
    rintro ⟨text, form⟩ line (rfl | rfl) <;> rfl
  obtain ⟨tokens, htokens, htokens'⟩ := h.picked_layout hc hlayout htoken token_add
  obtain ⟨problems, hproblems, hproblems'⟩ := h.picked_layout hc hlayout hproblem problem_add
  simp only [body_scan, problems_scan]
  refine ⟨tokens, problems, htokens, htokens', ?_, hproblems, hproblems'⟩
  simp only [ending_scan, newlines_append, Token.ending, Token.bare, Token.later]
  congr 1
  omega

end LoxLang

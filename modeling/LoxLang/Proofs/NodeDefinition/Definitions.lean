import Mathlib.Data.List.Induction
import LoxLang.Proofs.NodeDefinition.Agreement
import LoxLang.Proofs.NodeDefinition.Lexing

/-!
# Definitions in texts

A text is a definition if its tokens are one by the grammar.  If it is none, it is blamed on
the first place where no definition goes on: a character that starts no token, a token, or
the end.  Blanks between the tokens make no difference.
-/

namespace LoxLang

def DefinitionError.unplaced : DefinitionError → DefinitionError
  | character c _ => character c 0
  | token blamed => token { blamed with column := 0 }

namespace NodeDefinition

open DefinitionToken

def terminals (tokens : List Occurrence) : List Terminal :=
  tokens.map fun occurrence => terminal occurrence.token

def endPlace (tokens : List Occurrence) : Nat × Nat :=
  (tokens.getLast?.map fun occurrence => placeBehind occurrence.before).getD (1, 1)

/--
The error is about the first place in the text where no definition goes on, with the line
and the column of that place.
-/
inductive FirstMistake (text : List Char) : DefinitionError → Nat → Prop
  | character {tokens before c after line column} :
      Lexes [] text tokens (c :: after) → text = before ++ c :: after →
      Viable (terminals tokens) → placeBehind before = (line, column) →
      FirstMistake text (.character c column) line
  | token {earlier token later left line column} :
      Lexes [] text (earlier ++ token :: later) left → Viable (terminals earlier) →
      ¬Viable (terminals (earlier ++ [token])) → placeBehind token.before = (line, column) →
      FirstMistake text (.token ⟨token.kind, token.text, column⟩) line
  | ending {tokens line column} :
      Lexes [] text tokens [] → Viable (terminals tokens) →
      (∀ name hints, ¬IsDefinition (terminals tokens) name hints) →
      endPlace tokens = (line, column) →
      FirstMistake text (.token ⟨.ending, [], column⟩) line

def reading (text : String) : Except DefinitionError (String × List (String × String)) :=
  ((ofText text).map fun definition => (definition.name, definition.hints)).mapError
    DefinitionError.unplaced

/-! ## What the tokens of a text amount to -/

theorem map_terminal_token (tokens : List Occurrence) :
    (tokens.map Occurrence.token).map terminal = terminals tokens := by
  rw [List.map_map]
  rfl

theorem terminals_append (front back : List Occurrence) :
    terminals (front ++ back) = terminals front ++ terminals back :=
  List.map_append

theorem viable_nil : Viable [] :=
  ⟨[.name "N", .colon, .name "T", .name "field"], "N", [("field", "T")],
    .start (.last (.plain (.other (by decide)) .none))⟩

theorem exists_refused {tokens : List Occurrence} (h : ¬Viable (terminals tokens)) :
    ∃ earlier token later, tokens = earlier ++ token :: later ∧ Viable (terminals earlier) ∧
      ¬Viable (terminals (earlier ++ [token])) := by
  induction tokens using List.reverseRecOn with
  | nil => exact absurd viable_nil h
  | append_singleton front last ih =>
      by_cases hfront : Viable (terminals front)
      · exact ⟨front, last, [], rfl, hfront, h⟩
      · obtain ⟨earlier, token, later, rfl, hviable, hrefused⟩ := ih hfront
        exact ⟨earlier, token, later ++ [last], by simp, hviable, hrefused⟩

theorem refused_unique {earlier earlier' later later' : List Occurrence}
    {token token' : Occurrence} (hsame : earlier ++ token :: later = earlier' ++ token' :: later')
    (hviable : Viable (terminals earlier)) (hrefused : ¬Viable (terminals (earlier ++ [token])))
    (hviable' : Viable (terminals earlier'))
    (hrefused' : ¬Viable (terminals (earlier' ++ [token']))) : token = token' := by
  rcases List.append_eq_append_iff.mp hsame with ⟨between, rfl, hrest⟩ | ⟨between, rfl, hrest⟩
  · cases between with
    | nil => exact (List.cons.inj hrest).1
    | cons first between =>
        obtain rfl := (List.cons.inj hrest).1
        rw [List.append_cons, terminals_append] at hviable'
        exact absurd hviable'.of_append hrefused
  · cases between with
    | nil => exact (List.cons.inj hrest).1.symm
    | cons first between =>
        obtain rfl := (List.cons.inj hrest).1
        rw [List.append_cons, terminals_append] at hviable
        exact absurd hviable.of_append hrefused'

inductive Verdict : List Occurrence → List Char → Prop
  | refused {earlier token later left} :
      Viable (terminals earlier) → ¬Viable (terminals (earlier ++ [token])) →
      Verdict (earlier ++ token :: later) left
  | stray {tokens c after} : Viable (terminals tokens) → Verdict tokens (c :: after)
  | unfinished {tokens} :
      Viable (terminals tokens) →
      (∀ name hints, ¬IsDefinition (terminals tokens) name hints) → Verdict tokens []
  | definition {tokens name hints} : IsDefinition (terminals tokens) name hints → Verdict tokens []

theorem verdict (tokens : List Occurrence) (left : List Char) : Verdict tokens left := by
  by_cases hviable : Viable (terminals tokens)
  · cases left with
    | cons c after => exact .stray hviable
    | nil =>
        by_cases hsome : ∃ name hints, IsDefinition (terminals tokens) name hints
        · obtain ⟨name, hints, hdefinition⟩ := hsome
          exact .definition hdefinition
        · exact .unfinished hviable fun name hints h => hsome ⟨name, hints, h⟩
  · obtain ⟨earlier, token, later, rfl, hearlier, hrefused⟩ := exists_refused hviable
    exact .refused hearlier hrefused

/-! ## What is read of a text -/

section

variable {text : String} {tokens earlier later : List Occurrence} {token : Occurrence}
  {left : List Char}

theorem ofTokens_of_refused (hviable : Viable (terminals earlier))
    (hrefused : ¬Viable (terminals (earlier ++ [token]))) (later : List Occurrence) :
    ∃ rest, ofTokens ((earlier ++ token :: later).map Occurrence.token) =
      .error (token.token :: rest) := by
  have hnone : ¬Viable (terminals (earlier ++ token :: later)) := by
    rw [List.append_cons, terminals_append]
    exact fun h => hrefused h.of_append
  cases hread : ofTokens ((earlier ++ token :: later).map Occurrence.token) with
  | ok definition =>
      have hderives := ofTokens_derives hread
      rw [map_terminal_token] at hderives
      exact absurd hderives.viable hnone
  | error unread =>
      obtain ⟨front, hsplit, hfront, hblamed⟩ := ofTokens_blames hread
      obtain ⟨front, unread, hwhole, rfl, rfl⟩ := List.map_eq_append_iff.mp hsplit
      rw [map_terminal_token] at hfront
      cases unread with
      | nil =>
          rw [List.append_nil] at hwhole
          exact absurd (hwhole ▸ hfront) hnone
      | cons next rest =>
          have hnext : ¬Viable (terminals (front ++ [next])) := by
            have := hblamed next.token _ rfl
            rwa [← List.map_singleton, ← List.map_append, map_terminal_token] at this
          obtain rfl := refused_unique hwhole hviable hrefused hfront hnext
          exact ⟨_, rfl⟩

theorem ofTokens_of_viable (h : Viable (terminals tokens)) :
    ofTokens (tokens.map Occurrence.token) = .error [] ∨
      ∃ definition, ofTokens (tokens.map Occurrence.token) = .ok definition := by
  cases hread : ofTokens (tokens.map Occurrence.token) with
  | ok definition => exact .inr ⟨definition, rfl⟩
  | error unread =>
      obtain ⟨front, hsplit, -, hblamed⟩ := ofTokens_blames hread
      cases unread with
      | nil => exact .inl rfl
      | cons next rest =>
          have hnext : Viable ((front ++ [next]).map terminal) := by
            rw [← map_terminal_token, hsplit, List.append_cons, List.map_append] at h
            exact h.of_append
          exact absurd hnext (hblamed next rest rfl)

theorem ofText_of_refused (h : Lexes [] text.toList (earlier ++ token :: later) left)
    (hviable : Viable (terminals earlier))
    (hrefused : ¬Viable (terminals (earlier ++ [token]))) :
    ofText text = .error (.token token.token) := by
  have hscan : scan 1 text.toList = _ := h.scan
  obtain ⟨rest, hread⟩ := ofTokens_of_refused hviable hrefused later
  rw [ofText]
  simp only [hscan, hread]

theorem ofText_of_stray {c : Char} {after : List Char}
    (h : Lexes [] text.toList tokens (c :: after)) (hviable : Viable (terminals tokens)) :
    ofText text = .error (.character c (text.toList.length - (c :: after).length + 1)) := by
  have hscan : scan 1 text.toList = _ := h.scan
  rw [ofText]
  rcases ofTokens_of_viable hviable with hread | ⟨definition, hread⟩ <;>
    simp [hscan, hread, stopOf]

theorem ofText_of_unfinished (h : Lexes [] text.toList tokens [])
    (hviable : Viable (terminals tokens))
    (hnone : ∀ name hints, ¬IsDefinition (terminals tokens) name hints) :
    ofText text = .error (.token (ending (tokens.map Occurrence.token))) := by
  have hscan : scan 1 text.toList = _ := h.scan
  rw [ofText]
  rcases ofTokens_of_viable hviable with hread | ⟨definition, hread⟩
  · simp [hscan, hread, stopOf]
  · have hderives := ofTokens_derives hread
    rw [map_terminal_token] at hderives
    exact absurd hderives (hnone _ _)

theorem ofText_of_definition (h : Lexes [] text.toList tokens []) {name : String}
    {hints : List (String × String)} (hdefinition : IsDefinition (terminals tokens) name hints) :
    ∃ definition, ofText text = .ok definition ∧ definition.name = name ∧
      definition.hints = hints := by
  have hscan : scan 1 text.toList = _ := h.scan
  rw [← map_terminal_token] at hdefinition
  obtain ⟨definition, hread, hdefines⟩ := exists_ofTokens hdefinition
  refine ⟨definition, ?_, hdefines⟩
  rw [ofText]
  simp [hscan, hread, stopOf]

/-! ## Places of mistakes -/

theorem place_of_token (h : Lexes [] text.toList tokens left) (hmem : token ∈ tokens) :
    placeBehind token.before = (1, token.token.column) := by
  obtain ⟨-, hline⟩ := h.on_one_line (by simp)
  exact placeBehind_of_not_mem (hline token hmem)

theorem place_of_left {before : List Char} (h : Lexes [] text.toList tokens left)
    (hleft : text.toList = before ++ left) :
    placeBehind before = (1, text.toList.length - left.length + 1) := by
  obtain ⟨⟨read, hread, hline⟩, -⟩ := h.on_one_line (by simp)
  obtain rfl := List.append_cancel_right (hleft.symm.trans hread)
  rw [List.nil_append] at hline
  rw [placeBehind_of_not_mem hline, hleft]
  simp

theorem place_of_ending (h : Lexes [] text.toList tokens left) :
    endPlace tokens = (1, (ending (tokens.map Occurrence.token)).column) := by
  unfold endPlace ending
  rw [List.getLast?_map]
  cases hlast : tokens.getLast? with
  | none => rfl
  | some token => exact place_of_token h (List.mem_of_getLast? hlast)

theorem firstMistake_of_ofText {error : DefinitionError} (h : ofText text = .error error) :
    FirstMistake text.toList error 1 := by
  obtain ⟨tokens, left, hlexes⟩ := exists_lexes [] text.toList
  cases verdict tokens left with
  | @refused earlier token later _ hviable hrefused =>
      rw [ofText_of_refused hlexes hviable hrefused] at h
      obtain rfl := Except.error.inj h
      exact .token hlexes hviable hrefused (place_of_token hlexes (by simp))
  | stray hviable =>
      rw [ofText_of_stray hlexes hviable] at h
      obtain rfl := Except.error.inj h
      obtain ⟨⟨before, hbefore, -⟩, -⟩ := hlexes.on_one_line (by simp)
      exact .character hlexes hbefore hviable (place_of_left hlexes hbefore)
  | unfinished hviable hnone =>
      rw [ofText_of_unfinished hlexes hviable hnone] at h
      obtain rfl := Except.error.inj h
      exact .ending hlexes hviable hnone (place_of_ending hlexes)
  | definition hdefinition =>
      obtain ⟨definition, hread, -⟩ := ofText_of_definition hlexes hdefinition
      rw [hread] at h
      cases h

theorem FirstMistake.ofText {error : DefinitionError} {line : Nat}
    (h : FirstMistake text.toList error line) :
    NodeDefinition.ofText text = .error error ∧ line = 1 := by
  cases h with
  | character hlexes hbefore hviable hplace =>
      rw [place_of_left hlexes hbefore] at hplace
      obtain ⟨rfl, rfl⟩ := Prod.mk.inj hplace
      exact ⟨ofText_of_stray hlexes hviable, rfl⟩
  | token hlexes hviable hrefused hplace =>
      rw [place_of_token hlexes (by simp)] at hplace
      obtain ⟨rfl, rfl⟩ := Prod.mk.inj hplace
      exact ⟨ofText_of_refused hlexes hviable hrefused, rfl⟩
  | ending hlexes hviable hnone hplace =>
      rw [place_of_ending hlexes] at hplace
      obtain ⟨rfl, rfl⟩ := Prod.mk.inj hplace
      exact ⟨ofText_of_unfinished hlexes hviable hnone, rfl⟩

theorem lexes_of_ofText {definition : NodeDefinition} (h : ofText text = .ok definition) :
    ∃ tokens, Lexes [] text.toList tokens [] ∧
      IsDefinition (terminals tokens) definition.name definition.hints := by
  obtain ⟨tokens, left, hlexes⟩ := exists_lexes [] text.toList
  cases verdict tokens left with
  | refused hviable hrefused =>
      rw [ofText_of_refused hlexes hviable hrefused] at h
      cases h
  | stray hviable =>
      rw [ofText_of_stray hlexes hviable] at h
      cases h
  | unfinished hviable hnone =>
      rw [ofText_of_unfinished hlexes hviable hnone] at h
      cases h
  | definition hdefinition =>
      obtain ⟨other, hread, rfl, rfl⟩ := ofText_of_definition hlexes hdefinition
      obtain rfl := Except.ok.inj (hread.symm.trans h)
      exact ⟨tokens, hlexes, hdefinition⟩

/-! ## Blanks between tokens -/

theorem terminals_of_content {tokens tokens' : List Occurrence}
    (h : tokens'.map Occurrence.content = tokens.map Occurrence.content) :
    terminals tokens' = terminals tokens := by
  have hcontent (tokens : List Occurrence) : terminals tokens =
      (tokens.map Occurrence.content).map fun content => terminal ⟨content.1, content.2, 0⟩ := by
    rw [List.map_map]
    rfl
  rw [hcontent, hcontent, h]

theorem unplaced_of_content {token token' : Occurrence} (h : token'.content = token.content) :
    (DefinitionError.token token'.token).unplaced = (DefinitionError.token token.token).unplaced := by
  obtain ⟨hkind, htext⟩ := Prod.mk.inj h
  simp [DefinitionError.unplaced, Occurrence.token, hkind, htext]

/-- Texts with the same tokens that are left from the same character on are read alike. -/
theorem reading_of_content {text' : String} {tokens' : List Occurrence} {left' : List Char}
    (h : Lexes [] text.toList tokens left) (h' : Lexes [] text'.toList tokens' left')
    (hsame : tokens'.map Occurrence.content = tokens.map Occurrence.content)
    (hleft : left'.head? = left.head?) : reading text' = reading text := by
  have hterminals := terminals_of_content hsame
  unfold reading
  cases verdict tokens left with
  | @refused earlier token later _ hviable hrefused =>
      rw [List.map_append, List.map_cons] at hsame
      obtain ⟨earlier', more, rfl, hearlier, hmore⟩ := List.map_eq_append_iff.mp hsame
      obtain ⟨token', later', rfl, htoken, -⟩ := List.map_eq_cons_iff.mp hmore
      have hviable' : Viable (terminals earlier') := by
        rwa [terminals_of_content hearlier]
      have hrefused' : ¬Viable (terminals (earlier' ++ [token'])) := by
        have hboth : (earlier' ++ [token']).map Occurrence.content =
            (earlier ++ [token]).map Occurrence.content := by
          simp [hearlier, htoken]
        rwa [terminals_of_content hboth]
      rw [ofText_of_refused h hviable hrefused, ofText_of_refused h' hviable' hrefused']
      exact congrArg Except.error (unplaced_of_content htoken)
  | @stray _ c after hviable =>
      rw [← hterminals] at hviable
      cases left' with
      | nil => cases hleft
      | cons c' after' =>
          obtain rfl : c' = c := Option.some.inj hleft
          rw [ofText_of_stray h (hterminals ▸ hviable), ofText_of_stray h' hviable]
          rfl
  | unfinished hviable hnone =>
      obtain rfl : left' = [] := List.head?_eq_none_iff.mp hleft
      rw [ofText_of_unfinished h hviable hnone,
        ofText_of_unfinished h' (hterminals ▸ hviable) (hterminals ▸ hnone)]
      rfl
  | definition hdefinition =>
      obtain rfl : left' = [] := List.head?_eq_none_iff.mp hleft
      obtain ⟨read, hread, hname, hhints⟩ := ofText_of_definition h hdefinition
      rw [← hterminals] at hdefinition
      obtain ⟨read', hread', hname', hhints'⟩ := ofText_of_definition h' hdefinition
      simp [hread, hread', hname, hname', hhints, hhints', Except.map]

end

/--
A text is read as a definition if and only if its tokens are one by the grammar, with the name
and the annotations that the grammar gives.  If it is not read, the error is about the first
place where no definition goes on.  Blanks and tabs between the tokens change nothing but
the place of an error.
-/
theorem definitions_follow_grammar (text : String) :
    (∀ name hints,
      (∃ definition, ofText text = .ok definition ∧ definition.name = name ∧
        definition.hints = hints) ↔
      ∃ tokens, Lexes [] text.toList tokens [] ∧ IsDefinition (terminals tokens) name hints) ∧
    (∀ error line,
      FirstMistake text.toList error line ↔ ofText text = .error error ∧ line = 1) ∧
    ∀ front blanks back tokens left,
      text.toList = front ++ back → Lexes [] text.toList tokens left →
      Between tokens front.length → (∀ c ∈ blanks, c = ' ' ∨ c = '\t') →
      reading (String.ofList (front ++ (blanks ++ back))) = reading text := by
  refine ⟨fun name hints => ⟨?_, ?_⟩, fun error line => ⟨FirstMistake.ofText, ?_⟩, ?_⟩
  · rintro ⟨definition, hread, rfl, rfl⟩
    exact lexes_of_ofText hread
  · rintro ⟨tokens, hlexes, hdefinition⟩
    exact ofText_of_definition hlexes hdefinition
  · rintro ⟨hread, rfl⟩
    exact firstMistake_of_ofText hread
  · intro front blanks back tokens left htext hlexes hcut hblanks
    have hskipped : ∀ c ∈ blanks, isSkipped c = true := by
      simpa [isSkipped] using hblanks
    have hinserted : Lexes [] (front ++ back) tokens left := htext ▸ hlexes
    have hcut' : Between tokens (([] : List Char).length + front.length) := by
      simpa using hcut
    obtain ⟨tokens', left', hlexes', hsame, hleft⟩ := hinserted.insert hskipped hcut' []
    refine reading_of_content hlexes ?_ hsame hleft
    rwa [String.toList_ofList]

/-- An optional field, with blanks in front of its name, and with a mark too many there. -/
theorem definitions_follow_grammar_optional :
    (∃ definition, ofText "N:T?f" = .ok definition ∧ definition.name = "N" ∧
      definition.hints = [("f", "Optional[T]")]) ∧
    FirstMistake "N:T??f".toList (.token ⟨.optional, ['?'], 5⟩) 1 ∧
    (∃ tokens, Lexes [] "N:T?f".toList tokens [] ∧ Between tokens 4) ∧
    reading "N:T? \tf" = reading "N:T?f" := by
  let field : List Occurrence := [⟨['N', ':'], .name, ['T']⟩, ⟨['N', ':', 'T'], .optional, ['?']⟩]
  let tokens : List Occurrence :=
    ⟨[], .name, ['N']⟩ :: ⟨['N'], .colon, [':']⟩ :: (field ++ [⟨['N', ':', 'T', '?'], .name, ['f']⟩])
  have hlexes : Lexes [] ['N', ':', 'T', '?', 'f'] tokens [] := by
    have hcolon : ∀ c ∈ [':', 'T', '?', 'f'].head?, isNamePart c = false := by
      rintro c ⟨⟩
      rfl
    have hmark : ∀ c ∈ ['?', 'f'].head?, isNamePart c = false := by
      rintro c ⟨⟩
      rfl
    refine @Lexes.name [] 'N' [] _ _ _ rfl (by simp) hcolon (.mark rfl ?_)
    refine @Lexes.name _ 'T' [] _ _ _ rfl (by simp) hmark (.mark rfl ?_)
    exact @Lexes.name _ 'f' [] _ _ _ rfl (by simp) (by simp) .done
  have hcut : Between tokens 4 := by
    simp [Between, tokens, field]
  have hdefinition : IsDefinition (terminals tokens) "N" [("f", "Optional[T]")] :=
    .start (.last (.plain (.other (by decide)) .optional))
  obtain ⟨hreads, -, hblanks⟩ := definitions_follow_grammar "N:T?f"
  obtain ⟨-, hmistakes, -⟩ := definitions_follow_grammar "N:T??f"
  have hrefused : ofText "N:T??f" = .error (.token ⟨.optional, ['?'], 5⟩) := by
    with_unfolding_all rfl
  refine ⟨(hreads _ _).mpr ⟨tokens, hlexes, hdefinition⟩, (hmistakes _ _).mpr ⟨hrefused, rfl⟩,
    ⟨tokens, hlexes, hcut⟩, ?_⟩
  exact hblanks ['N', ':', 'T', '?'] [' ', '\t'] ['f'] tokens [] rfl hlexes hcut (by simp)

end NodeDefinition

end LoxLang

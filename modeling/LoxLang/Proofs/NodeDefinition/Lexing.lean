import Mathlib.Data.List.TakeWhile
import LoxLang.NodeDefinition.Token

/-!
# The tokens of a definition

A relation between a text and its tokens, each with the text in front of it, up to the end
of the text or to the first character that starts none.  The scan of a definition follows
it, and blanks between the tokens change nothing but the places.
-/

namespace LoxLang.DefinitionToken

structure Occurrence where
  before : List Char
  kind : Kind
  text : List Char

/-- The character is no blank, and neither a name nor a mark starts with it. -/
def StartsNone (c : Char) : Prop :=
  isSkipped c = false ∧ isNameStart c = false ∧ mark? c = none

/--
Behind the first part of a text, the rest of it has these tokens and is left from a
character on that starts none, or has no more characters.
-/
inductive Lexes : List Char → List Char → List Occurrence → List Char → Prop
  | done {before} : Lexes before [] [] []
  | stop {before c rest} : StartsNone c → Lexes before (c :: rest) [] (c :: rest)
  | skip {before c rest tokens left} :
      isSkipped c = true → Lexes (before ++ [c]) rest tokens left →
      Lexes before (c :: rest) tokens left
  /-- A name ends where the next character is no part of one. -/
  | name {before first part rest tokens left} :
      isNameStart first = true → (∀ c ∈ part, isNamePart c = true) →
      (∀ c ∈ rest.head?, isNamePart c = false) →
      Lexes (before ++ first :: part) rest tokens left →
      Lexes before (first :: (part ++ rest)) (⟨before, .name, first :: part⟩ :: tokens) left
  | mark {before c kind rest tokens left} :
      mark? c = some kind → Lexes (before ++ [c]) rest tokens left →
      Lexes before (c :: rest) (⟨before, kind, [c]⟩ :: tokens) left

/-! ## Classes of characters -/

theorem mark?_cases {c : Char} {kind : Kind} (h : mark? c = some kind) :
    c = ':' ∨ c = ',' ∨ c = '<' ∨ c = '>' ∨ c = '?' := by
  unfold mark? at h
  split at h <;> simp_all

theorem not_skipped_of_nameStart {c : Char} (h : isNameStart c = true) : isSkipped c = false := by
  rw [Bool.eq_false_iff]
  intro hskipped
  rcases Bool.or_eq_true_iff.mp hskipped with hc | hc <;>
    · rw [eq_of_beq hc] at h
      cases h

theorem not_namePart_of_skipped {c : Char} (h : isSkipped c = true) : isNamePart c = false := by
  rcases Bool.or_eq_true_iff.mp h with hc | hc <;>
    · rw [eq_of_beq hc]
      rfl

theorem unskipped_of_mark {c : Char} {kind : Kind} (h : mark? c = some kind) :
    isSkipped c = false ∧ isNameStart c = false := by
  rcases mark?_cases h with rfl | rfl | rfl | rfl | rfl <;> exact ⟨rfl, rfl⟩

/-! ## The scan -/

def Occurrence.token (occurrence : Occurrence) : DefinitionToken :=
  ⟨occurrence.kind, occurrence.text, occurrence.before.length + 1⟩

/-- The character that stops the reading and its column, when this much is left of a text. -/
def stopOf (text left : List Char) : Option (Char × Nat) :=
  left.head?.map (·, text.length - left.length + 1)

theorem cut_name {part rest : List Char} (hpart : ∀ c ∈ part, isNamePart c = true)
    (hrest : ∀ c ∈ rest.head?, isNamePart c = false) :
    (part ++ rest).takeWhile isNamePart = part ∧ (part ++ rest).dropWhile isNamePart = rest := by
  rw [List.takeWhile_append_of_pos hpart, List.dropWhile_append_of_pos hpart]
  cases rest with
  | nil => simp
  | cons c rest =>
      have hc : isNamePart c = false := hrest c rfl
      simp [hc]

theorem Lexes.scan {before text left : List Char} {tokens : List Occurrence}
    (h : Lexes before text tokens left) :
    scan (before.length + 1) text =
      (tokens.map Occurrence.token, stopOf (before ++ text) left) := by
  induction h with
  | done => rw [DefinitionToken.scan]; rfl
  | @stop before c rest hc =>
      obtain ⟨hskipped, hname, hmark⟩ := hc
      rw [DefinitionToken.scan]
      simp [hskipped, hname, hmark, stopOf]
  | @skip before c rest tokens left hc _ ih =>
      rw [DefinitionToken.scan, if_pos hc]
      simpa [stopOf] using ih
  | @name before first part rest tokens left hfirst hpart hrest _ ih =>
      obtain ⟨htake, hdrop⟩ := cut_name hpart hrest
      have hcolumn : before.length + 1 + 1 + part.length =
          (before ++ first :: part).length + 1 := by
        simp
        omega
      rw [DefinitionToken.scan, if_neg (by simp [not_skipped_of_nameStart hfirst]), if_pos hfirst]
      simp only [htake, hdrop, hcolumn, ih]
      simp [Occurrence.token, stopOf]
  | @mark before c kind rest tokens left hmark _ ih =>
      obtain ⟨hskipped, hname⟩ := unskipped_of_mark hmark
      have hcolumn : before.length + 1 + 1 = (before ++ [c]).length + 1 := by
        simp
      rw [DefinitionToken.scan, if_neg (by simp [hskipped]), if_neg (by simp [hname])]
      simp only [hmark, hcolumn, ih]
      simp [Occurrence.token, stopOf]

theorem exists_lexes (before text : List Char) : ∃ tokens left, Lexes before text tokens left := by
  induction hlength : text.length using Nat.strongRecOn generalizing before text with
  | _ n ih =>
      cases text with
      | nil => exact ⟨[], [], .done⟩
      | cons c rest =>
          have hshorter : rest.length < n := by
            rw [← hlength]
            simp
          by_cases hskipped : isSkipped c = true
          · obtain ⟨tokens, left, h⟩ := ih _ hshorter (before ++ [c]) rest rfl
            exact ⟨tokens, left, .skip hskipped h⟩
          by_cases hname : isNameStart c = true
          · have hpart : ∀ d ∈ rest.takeWhile isNamePart, isNamePart d = true :=
              fun d hd => List.mem_takeWhile_imp hd
            have hnext : ∀ d ∈ (rest.dropWhile isNamePart).head?, isNamePart d = false := by
              intro d hd
              have := List.head?_dropWhile_not isNamePart rest
              rw [Option.mem_def.mp hd] at this
              simpa using this
            have hdrop : (rest.dropWhile isNamePart).length < n :=
              (List.dropWhile_sublist _).length_le.trans_lt hshorter
            obtain ⟨tokens, left, h⟩ := ih _ hdrop
              (before ++ c :: rest.takeWhile isNamePart) (rest.dropWhile isNamePart) rfl
            have hlexes := Lexes.name hname hpart hnext h
            rw [List.takeWhile_append_dropWhile] at hlexes
            exact ⟨_, left, hlexes⟩
          cases hmark : mark? c with
          | none => exact ⟨[], _, .stop ⟨by simpa using hskipped, by simpa using hname, hmark⟩⟩
          | some kind =>
              obtain ⟨tokens, left, h⟩ := ih _ hshorter (before ++ [c]) rest rfl
              exact ⟨_, left, .mark hmark h⟩

/-! ## Places -/

def placeBehind (before : List Char) : Nat × Nat :=
  (before.count '\n' + 1, (before.reverse.takeWhile (· ≠ '\n')).length + 1)

theorem placeBehind_of_not_mem {before : List Char} (h : '\n' ∉ before) :
    placeBehind before = (1, before.length + 1) := by
  have hall : ∀ c ∈ before.reverse, decide (c ≠ '\n') = true := by
    intro c hc
    simp only [decide_eq_true_eq]
    rintro rfl
    exact h (List.mem_reverse.mp hc)
  rw [placeBehind, List.count_eq_zero.mpr h, List.takeWhile_eq_self_iff.mpr hall,
    List.length_reverse]

theorem feed_not_mem_snoc {before : List Char} {c : Char} (hbefore : '\n' ∉ before)
    (hc : c ≠ '\n') : '\n' ∉ before ++ [c] := by
  simp [hbefore, hc.symm]

theorem feed_not_mem_name {first : Char} {part : List Char} (hfirst : isNameStart first = true)
    (hpart : ∀ c ∈ part, isNamePart c = true) : '\n' ∉ first :: part := by
  rw [List.mem_cons]
  rintro (rfl | hmem)
  · cases hfirst
  · cases hpart _ hmem

theorem Lexes.on_one_line {before text left : List Char} {tokens : List Occurrence}
    (h : Lexes before text tokens left) (hbefore : '\n' ∉ before) :
    (∃ read, text = read ++ left ∧ '\n' ∉ before ++ read) ∧
      ∀ token ∈ tokens, '\n' ∉ token.before := by
  induction h with
  | done => exact ⟨⟨[], rfl, by simpa using hbefore⟩, by simp⟩
  | stop => exact ⟨⟨[], rfl, by simpa using hbefore⟩, by simp⟩
  | @skip before c rest tokens left hc _ ih =>
      have hfeed : c ≠ '\n' := by
        rintro rfl
        cases hc
      obtain ⟨⟨read, rfl, hread⟩, htokens⟩ := ih (feed_not_mem_snoc hbefore hfeed)
      exact ⟨⟨c :: read, rfl, by simpa using hread⟩, htokens⟩
  | @name before first part rest tokens left hfirst hpart _ _ ih =>
      have hfeed : '\n' ∉ before ++ first :: part :=
        List.not_mem_append hbefore (feed_not_mem_name hfirst hpart)
      obtain ⟨⟨read, rfl, hread⟩, htokens⟩ := ih hfeed
      exact ⟨⟨first :: (part ++ read), by simp, by simpa using hread⟩,
        List.forall_mem_cons.mpr ⟨hbefore, htokens⟩⟩
  | @mark before c kind rest tokens left hmark _ ih =>
      have hfeed : c ≠ '\n' := by
        rintro rfl
        cases hmark
      obtain ⟨⟨read, rfl, hread⟩, htokens⟩ := ih (feed_not_mem_snoc hbefore hfeed)
      exact ⟨⟨c :: read, rfl, by simpa using hread⟩,
        List.forall_mem_cons.mpr ⟨hbefore, htokens⟩⟩

/-! ## Blanks between tokens -/

def Occurrence.content (occurrence : Occurrence) : Kind × List Char :=
  (occurrence.kind, occurrence.text)

theorem Lexes.moved {before text left : List Char} {tokens : List Occurrence}
    (h : Lexes before text tokens left) (before' : List Char) :
    ∃ tokens', Lexes before' text tokens' left ∧
      tokens'.map Occurrence.content = tokens.map Occurrence.content := by
  induction h generalizing before' with
  | done => exact ⟨[], .done, rfl⟩
  | stop hc => exact ⟨[], .stop hc, rfl⟩
  | @skip _ c _ _ _ hc _ ih =>
      obtain ⟨tokens', hlexes, hsame⟩ := ih (before' ++ [c])
      exact ⟨tokens', .skip hc hlexes, hsame⟩
  | @name _ first part _ _ _ hfirst hpart hrest _ ih =>
      obtain ⟨tokens', hlexes, hsame⟩ := ih (before' ++ first :: part)
      exact ⟨_, .name hfirst hpart hrest hlexes, congrArg (_ :: ·) hsame⟩
  | @mark _ c _ _ _ _ hmark _ ih =>
      obtain ⟨tokens', hlexes, hsame⟩ := ih (before' ++ [c])
      exact ⟨_, .mark hmark hlexes, congrArg (_ :: ·) hsame⟩

theorem Lexes.skip_all {before blanks text left : List Char} {tokens : List Occurrence}
    (hblanks : ∀ c ∈ blanks, isSkipped c = true) (h : Lexes (before ++ blanks) text tokens left) :
    Lexes before (blanks ++ text) tokens left := by
  induction blanks generalizing before with
  | nil => simpa using h
  | cons c rest ih =>
      obtain ⟨hc, hrest⟩ := List.forall_mem_cons.mp hblanks
      exact .skip hc (ih hrest (by simpa using h))

/-- The cut behind so many characters goes through none of the tokens. -/
def Between (tokens : List Occurrence) (cut : Nat) : Prop :=
  ∀ token ∈ tokens,
    cut ≤ token.before.length ∨ token.before.length + token.text.length ≤ cut

theorem length_moved (before word front : List Char) :
    (before ++ word).length + front.length = before.length + (word ++ front).length := by
  simp [Nat.add_assoc]

theorem head_of_insert {front blanks back : List Char}
    (hblanks : ∀ c ∈ blanks, isSkipped c = true)
    (h : ∀ c ∈ (front ++ back).head?, isNamePart c = false) :
    ∀ c ∈ (front ++ (blanks ++ back)).head?, isNamePart c = false := by
  cases front with
  | cons c front => exact h
  | nil =>
      cases blanks with
      | nil => exact h
      | cons c blanks =>
          intro d hd
          obtain rfl : c = d := by simpa using hd
          exact not_namePart_of_skipped (hblanks _ (.head _))

theorem Lexes.insert_front {before text left : List Char} {tokens : List Occurrence}
    (h : Lexes before text tokens left) {blanks : List Char}
    (hblanks : ∀ c ∈ blanks, isSkipped c = true) (before' : List Char) :
    ∃ tokens' left', Lexes before' (blanks ++ text) tokens' left' ∧
      tokens'.map Occurrence.content = tokens.map Occurrence.content ∧
      left'.head? = left.head? := by
  obtain ⟨tokens', hlexes, hsame⟩ := h.moved (before' ++ blanks)
  exact ⟨tokens', left, .skip_all hblanks hlexes, hsame, rfl⟩

theorem Lexes.insert {before front back left : List Char} {tokens : List Occurrence}
    (h : Lexes before (front ++ back) tokens left) {blanks : List Char}
    (hblanks : ∀ c ∈ blanks, isSkipped c = true)
    (hcut : Between tokens (before.length + front.length)) (before' : List Char) :
    ∃ tokens' left', Lexes before' (front ++ (blanks ++ back)) tokens' left' ∧
      tokens'.map Occurrence.content = tokens.map Occurrence.content ∧
      left'.head? = left.head? := by
  generalize htext : front ++ back = text at h
  induction h generalizing front before' with
  | done =>
      obtain ⟨rfl, rfl⟩ := List.append_eq_nil_iff.mp htext
      exact (@Lexes.done []).insert_front hblanks before'
  | stop hc =>
      rcases List.append_eq_cons_iff.mp htext with ⟨rfl, rfl⟩ | ⟨front, rfl, rfl⟩
      · exact (@Lexes.stop [] _ _ hc).insert_front hblanks before'
      · exact ⟨[], _, .stop hc, rfl, rfl⟩
  | @skip before c rest tokens left hc hrest ih =>
      rcases List.append_eq_cons_iff.mp htext with ⟨rfl, rfl⟩ | ⟨front, rfl, rfl⟩
      · exact (Lexes.skip hc hrest).insert_front hblanks before'
      · have hcut' : Between tokens ((before ++ [c]).length + front.length) := by
          rw [length_moved]
          exact hcut
        obtain ⟨tokens', left', hlexes, hsame⟩ := ih hcut' (before' ++ [c]) rfl
        exact ⟨tokens', left', .skip hc hlexes, hsame⟩
  | @name before first part rest tokens left hfirst hpart hnext hrest ih =>
      obtain ⟨hhere, hthere⟩ := List.forall_mem_cons.mp hcut
      rcases List.append_eq_cons_iff.mp htext with ⟨rfl, rfl⟩ | ⟨front, rfl, hsplit⟩
      · exact (Lexes.name hfirst hpart hnext hrest).insert_front hblanks before'
      · -- The cut is behind the whole name, as it does not go through it.
        have hbehind : part.length ≤ front.length := by
          simp only [List.length_cons] at hhere
          omega
        obtain ⟨front, rfl, rfl⟩ : ∃ front', front = part ++ front' ∧ rest = front' ++ back := by
          rcases List.append_eq_append_iff.mp hsplit with ⟨inner, rfl, rfl⟩ | ⟨inner, rfl, rfl⟩
          · exact ⟨inner, rfl, rfl⟩
          · have hempty : inner = [] := by
              rw [List.length_append] at hbehind
              exact List.length_eq_zero_iff.mp (by omega)
            exact ⟨[], by simp [hempty], by simp [hempty]⟩
        have hcut' : Between tokens ((before ++ first :: part).length + front.length) := by
          rw [length_moved]
          exact hthere
        obtain ⟨tokens', left', hlexes, hsame, hleft⟩ := ih hcut' (before' ++ first :: part) rfl
        have hnamed := Lexes.name hfirst hpart (head_of_insert hblanks hnext) hlexes
        rw [← List.append_assoc, ← List.cons_append] at hnamed
        exact ⟨_, left', hnamed, congrArg (_ :: ·) hsame, hleft⟩
  | @mark before c kind rest tokens left hmark hrest ih =>
      obtain ⟨-, hthere⟩ := List.forall_mem_cons.mp hcut
      rcases List.append_eq_cons_iff.mp htext with ⟨rfl, rfl⟩ | ⟨front, rfl, rfl⟩
      · exact (Lexes.mark hmark hrest).insert_front hblanks before'
      · have hcut' : Between tokens ((before ++ [c]).length + front.length) := by
          rw [length_moved]
          exact hthere
        obtain ⟨tokens', left', hlexes, hsame, hleft⟩ := ih hcut' (before' ++ [c]) rfl
        exact ⟨_, left', .mark hmark hlexes, congrArg (_ :: ·) hsame, hleft⟩

end LoxLang.DefinitionToken

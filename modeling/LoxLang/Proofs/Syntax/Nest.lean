import Mathlib.Tactic.Tauto

/-!
# Nested texts

Words with blanks between them, grouped by parentheses, each group with a word at its head.
Such a text can be taken apart in one way only.
-/

namespace LoxLang

/-- A word, or a head with parts behind it in parentheses. -/
inductive Nest where
  | word (text : List Char)
  | node (head : List Char) (parts : List Nest)

namespace Nest

mutual

def text : Nest → List Char
  | word text => text
  | node head parts => '(' :: (head ++ ending parts)

def ending : List Nest → List Char
  | [] => [')']
  | part :: parts => ' ' :: (part.text ++ ending parts)

end

def Unbroken (text : List Char) : Prop :=
  ∀ c ∈ text, c ∉ [' ', '(', ')']

/-- No word goes on at the start of the text. -/
def Breaks (text : List Char) : Prop :=
  ∀ c ∈ text.head?, c ∈ [' ', ')']

mutual

def Spelled : Nest → Prop
  | word text => Unbroken text
  | node head parts => Unbroken head ∧ AllSpelled parts

def AllSpelled : List Nest → Prop
  | [] => True
  | part :: parts => part.Spelled ∧ AllSpelled parts

end

variable {word word' rest rest' : List Char}

theorem unbroken_cons {c : Char} :
    Unbroken (c :: word) ↔ c ∉ [' ', '(', ')'] ∧ Unbroken word :=
  List.forall_mem_cons

theorem Breaks.not_unbroken {c : Char} (h : Breaks (c :: rest)) : ¬Unbroken (c :: word) := by
  have hbreak := h c rfl
  intro hword
  have hmem : c ∈ [' ', '(', ')'] := by
    revert hbreak
    simp only [List.mem_cons, List.not_mem_nil]
    tauto
  exact (unbroken_cons.mp hword).1 hmem

theorem word_unique (hword : Unbroken word) (hword' : Unbroken word') (hrest : Breaks rest)
    (hrest' : Breaks rest') (h : word ++ rest = word' ++ rest') : word = word' ∧ rest = rest' := by
  induction word generalizing word' with
  | nil =>
      cases word' with
      | nil => exact ⟨rfl, h⟩
      | cons c more =>
          subst h
          exact absurd hword' hrest.not_unbroken
  | cons c more ih =>
      cases word' with
      | nil =>
          subst h
          exact absurd hword hrest'.not_unbroken
      | cons c' more' =>
          obtain ⟨rfl, hmore⟩ := List.cons.inj h
          obtain ⟨rfl, rfl⟩ :=
            ih (unbroken_cons.mp hword).2 (unbroken_cons.mp hword').2 hmore
          exact ⟨rfl, rfl⟩

theorem word_ne_node (hword : Unbroken word) (hrest : Breaks rest) (inside : List Char) :
    word ++ rest ≠ '(' :: inside := by
  intro h
  cases word with
  | nil =>
      subst h
      have hbreak := hrest '(' rfl
      simp at hbreak
  | cons c more =>
      obtain ⟨rfl, -⟩ := List.cons.inj h
      simp [unbroken_cons] at hword

theorem breaks_ending (parts : List Nest) (rest : List Char) : Breaks (ending parts ++ rest) := by
  cases parts <;> simp [Breaks, ending]

mutual

theorem text_unique {nest nest' : Nest} {rest rest' : List Char} (hnest : nest.Spelled)
    (hnest' : nest'.Spelled) (hrest : Breaks rest) (hrest' : Breaks rest')
    (h : nest.text ++ rest = nest'.text ++ rest') : nest = nest' ∧ rest = rest' := by
  match nest, nest' with
  | .word text, .word text' =>
      obtain ⟨rfl, rfl⟩ := word_unique hnest hnest' hrest hrest' h
      exact ⟨rfl, rfl⟩
  | .word text, .node head' parts' => exact absurd h (word_ne_node hnest hrest _)
  | .node head parts, .word text' => exact absurd h.symm (word_ne_node hnest' hrest' _)
  | .node head parts, .node head' parts' =>
      simp only [text, List.cons_append, List.append_assoc, List.cons.injEq, true_and] at h
      obtain ⟨rfl, hending⟩ := word_unique hnest.1 hnest'.1 (breaks_ending parts rest)
        (breaks_ending parts' rest') h
      obtain ⟨rfl, rfl⟩ := ending_unique hnest.2 hnest'.2 hending
      exact ⟨rfl, rfl⟩

theorem ending_unique {parts parts' : List Nest} {rest rest' : List Char}
    (hparts : AllSpelled parts) (hparts' : AllSpelled parts')
    (h : ending parts ++ rest = ending parts' ++ rest') : parts = parts' ∧ rest = rest' := by
  match parts, parts' with
  | [], [] => exact ⟨rfl, (List.cons.inj h).2⟩
  | [], part' :: more' => simp [ending] at h
  | part :: more, [] => simp [ending] at h
  | part :: more, part' :: more' =>
      simp only [ending, List.cons_append, List.append_assoc, List.cons.injEq, true_and] at h
      obtain ⟨rfl, hending⟩ := text_unique hparts.1 hparts'.1 (breaks_ending more rest)
        (breaks_ending more' rest') h
      obtain ⟨rfl, rfl⟩ := ending_unique hparts.2 hparts'.2 hending
      exact ⟨rfl, rfl⟩

end

end Nest

end LoxLang

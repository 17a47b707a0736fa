import LoxLang.Proofs.Frames.Runs
import LoxLang.Proofs.Scoping.Representation

/-!
# Changes confined to some names

Two states of an arena that have the same frames, and in them the same names, with
other values at most for the names that may change.
-/

namespace LoxLang

def Frame.names (frame : Frame) : List String :=
  frame.values.entries.map Prod.fst

namespace Arena

def valueAt? (arena : Arena) (place : Nat) (name : String) : Option Value :=
  arena.frames[place]?.bind (·.values.get? name)

def outer (base : Nat) (arena : Arena) : Arena :=
  ⟨arena.frames.take base⟩

structure Confined (changes : String → Prop) (before after : Arena) : Prop where
  enclosing : after.frames.map Frame.enclosing = before.frames.map Frame.enclosing
  names : after.frames.map Frame.names = before.frames.map Frame.names
  values : ∀ place name, after.valueAt? place name ≠ before.valueAt? place name → changes name
  untouched : (∀ name, ¬ changes name) → after = before

variable {changes changes' : String → Prop} {before middle after : Arena}

theorem Confined.refl (arena : Arena) : Confined changes arena arena :=
  ⟨rfl, rfl, fun _ _ h => absurd rfl h, fun _ => rfl⟩

theorem Confined.trans (h : Confined changes before middle) (h' : Confined changes middle after) :
    Confined changes before after where
  enclosing := h'.enclosing.trans h.enclosing
  names := h'.names.trans h.names
  values := by
    intro place name hchanged
    by_cases hfirst : middle.valueAt? place name = before.valueAt? place name
    · exact h'.values place name (hfirst ▸ hchanged)
    · exact h.values place name hfirst
  untouched := fun hnone => (h'.untouched hnone).trans (h.untouched hnone)

theorem Confined.mono (h : Confined changes before after)
    (hsub : ∀ name, changes name → changes' name) : Confined changes' before after where
  enclosing := h.enclosing
  names := h.names
  values := fun place name hchanged => hsub name (h.values place name hchanged)
  untouched := fun hnone => h.untouched fun name hname => hnone name (hsub name hname)

theorem Confined.size_eq (h : Confined changes before after) : after.size = before.size := by
  simpa [size] using congrArg List.length h.enclosing

/-! ## One binding changed -/

open Scoping Frames

theorem names_put {name : String} (value : Value) {entries : List (String × Value)}
    (hbound : Bindings.find? name entries ≠ none) :
    (Bindings.put name value entries).map Prod.fst = entries.map Prod.fst := by
  induction entries with
  | nil => simp [Bindings.find?] at hbound
  | cons entry rest ih =>
      obtain ⟨key, old⟩ := entry
      by_cases hkey : key = name
      · simp [Bindings.put, hkey]
      · simp only [Bindings.find?, if_neg hkey] at hbound
        simp [Bindings.put, hkey, ih hbound]

theorem valueAt?_modify (arena : Arena) (place place' : Nat) (name name' : String)
    (value : Value) :
    Arena.valueAt? ⟨arena.frames.modify place (bindIn name value)⟩ place' name' =
      if place = place' ∧ name = name' ∧ place < arena.size then some value
      else arena.valueAt? place' name' := by
  simp only [valueAt?, List.getElem?_modify, size]
  by_cases hplace : place = place'
  · subst hplace
    cases hframe : arena.frames[place]? with
    | none =>
        have hsize := List.getElem?_eq_none_iff.mp hframe
        simp [Nat.not_lt.mpr hsize]
    | some frame =>
        have hsize := (List.getElem?_eq_some_iff.mp hframe).1
        simp [bindIn, hsize]
  · simp [hplace]

theorem confined_modify {arena : Arena} {place : Nat} {name : String} {old : Value}
    (value : Value) (hbound : arena.valueAt? place name = some old) (hname : changes name) :
    Confined changes arena ⟨arena.frames.modify place (bindIn name value)⟩ where
  enclosing := enclosing_modify arena.frames place name value
  names := by
    apply List.ext_getElem?
    intro i
    simp only [List.getElem?_map, List.getElem?_modify]
    by_cases hplace : place = i
    · subst hplace
      cases hframe : arena.frames[place]? with
      | none => rfl
      | some frame =>
          have hfind : frame.values.get? name = some old := by
            simpa [valueAt?, hframe] using hbound
          have hkept : Bindings.find? name frame.values.entries ≠ none := by
            rw [← Bindings.get?, hfind]
            simp
          have hnames := names_put value hkept
          simpa [bindIn, Frame.names, Bindings.insert] using hnames
    · simp [hplace]
  values := by
    intro place' name' hchanged
    rw [valueAt?_modify] at hchanged
    split at hchanged
    next h => exact h.2.1 ▸ hname
    next => exact absurd rfl hchanged
  untouched := fun hnone => absurd hname (hnone name)

theorem outer_modify (arena : Arena) (base place : Nat) (f : Frame → Frame) :
    Arena.outer base ⟨arena.frames.modify place f⟩ =
      ⟨(arena.outer base).frames.modify place f⟩ := by
  simp [outer, List.take_modify]

theorem outer_modify_of_le {arena : Arena} {base place : Nat} (h : base ≤ place)
    (f : Frame → Frame) : Arena.outer base ⟨arena.frames.modify place f⟩ = arena.outer base := by
  have hlength : (arena.frames.take base).length ≤ place :=
    Nat.le_trans (List.length_take_le _ _) h
  rw [outer_modify, outer, List.modify_eq_self hlength]

theorem valueAt?_outer {arena : Arena} {base place : Nat} (h : place < base) (name : String) :
    (arena.outer base).valueAt? place name = arena.valueAt? place name := by
  simp [valueAt?, outer, h]

/-! ## The binding that a walk comes to -/

theorem valueAt?_of_walk {arena : Arena} {name : String} {steps : Nat} {index : Option Int}
    {place : Nat} {value : Value} (h : arena.walk name steps index = .bound place value) :
    arena.valueAt? place name = some value := by
  fun_induction arena.walk name steps index with
  | case1 => cases h
  | case2 => cases h
  | case3 => cases h
  | case4 => cases h
  | case5 steps index place' hplace frame hframe value' hvalue =>
      obtain ⟨rfl, rfl⟩ := Lookup.bound.inj h
      simp [valueAt?, hframe, hvalue]
  | case6 steps index place' hplace frame hframe hvalue ih => exact ih h

end Arena

end LoxLang

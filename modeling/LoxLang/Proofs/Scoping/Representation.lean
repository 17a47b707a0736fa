import LoxLang.Proofs.Execution.Steps
import LoxLang.Proofs.Scoping.Semantics

/-!
# Stacks as arenas

The frames of a stack of maps lie in the arena from the bottom up, each enclosed
by the one before it, and the last one is current.  Every operation on the stack
is the operation of the same name on such an arena.
-/

namespace LoxLang.Scoping

def outerIndex : List Bindings → Option Int
  | [] => none
  | _ :: more => some more.length

def frames : (top : Bindings) → (below : List Bindings) → List Frame
  | top, [] => [{ values := top }]
  | top, next :: more => frames next more ++ [{ enclosing := some more.length, values := top }]

def Scopes.arena (scopes : Scopes) : Arena := ⟨frames scopes.top scopes.below⟩

structure Represents (scopes : Scopes) (machine : Machine) : Prop where
  arena : machine.arena = scopes.arena
  frame : machine.frame = scopes.below.length

@[simp] theorem length_frames (top : Bindings) (below : List Bindings) :
    (frames top below).length = below.length + 1 := by
  induction below generalizing top with
  | nil => rfl
  | cons next more ih => simp [frames, ih]

theorem frames_eq_append (top : Bindings) (below : List Bindings) :
    ∃ outer, outer.length = below.length ∧
      frames top below = outer ++ [{ enclosing := outerIndex below, values := top }] := by
  cases below with
  | nil => exact ⟨[], rfl, rfl⟩
  | cons next more => exact ⟨frames next more, length_frames next more, rfl⟩

theorem frames_injective {top top' : Bindings} {below below' : List Bindings}
    (h : frames top below = frames top' below') : top = top' ∧ below = below' := by
  induction below generalizing top top' below' with
  | nil =>
      cases below' with
      | nil =>
          injection h with h
          injection h with _ h
          exact ⟨h, rfl⟩
      | cons next more =>
          have hlength := congrArg List.length h
          simp at hlength
  | cons next more ih =>
      cases below' with
      | nil =>
          have hlength := congrArg List.length h
          simp at hlength
      | cons next' more' =>
          obtain ⟨houter, hlast⟩ := List.append_inj' h rfl
          obtain ⟨rfl, rfl⟩ := ih houter
          injection hlast with hlast
          injection hlast with _ htop
          exact ⟨htop, rfl⟩

theorem Represents.unique {scopes scopes' : Scopes} {machine : Machine}
    (h : Represents scopes machine) (h' : Represents scopes' machine) : scopes = scopes' := by
  have hframes := congrArg Arena.frames (h.arena.symm.trans h'.arena)
  obtain ⟨htop, hbelow⟩ := frames_injective hframes
  cases scopes
  cases scopes'
  simp_all

/-! ## Looking names up -/

/-- Where in the arena the topmost map is that binds a name, with the value there. -/
def locate (name : String) : (top : Bindings) → (below : List Bindings) → Option (Nat × Value)
  | top, below =>
      match top.get? name, below with
      | some value, below => some (below.length, value)
      | none, [] => none
      | none, next :: more => locate name next more

theorem lookup_eq_locate (name : String) (top : Bindings) (below : List Bindings) :
    Scopes.lookup name top below = (locate name top below).map Prod.snd := by
  induction below generalizing top with
  | nil =>
      unfold Scopes.lookup locate
      cases top.get? name <;> rfl
  | cons next more ih =>
      unfold Scopes.lookup locate
      cases top.get? name with
      | none => exact ih next
      | some value => rfl

theorem place?_of_lt {arena : Arena} {index : Nat} (h : index < arena.size) :
    arena.place? index = some index := by
  unfold Arena.place?
  have hnonneg : ¬ (index : Int) < 0 := by omega
  simp only [if_neg hnonneg]
  rw [if_pos (by omega), Int.toNat_natCast]

theorem walk_step {arena : Arena} {index : Nat} {frame : Frame} (name : String) (steps : Nat)
    (h : arena.frames[index]? = some frame) :
    arena.walk name (steps + 1) (some index) =
      match frame.values.get? name with
      | some value => .bound index value
      | none => arena.walk name steps frame.enclosing := by
  have hlt : index < arena.size := (List.getElem?_eq_some_iff.mp h).1
  rw [Arena.walk, place?_of_lt hlt]
  cases hvalue : frame.values.get? name with
  | none => simp only [h, hvalue]
  | some value => simp only [h, hvalue]

theorem getElem?_frames (top : Bindings) (below : List Bindings) (extra : List Frame) :
    (frames top below ++ extra)[below.length]? =
      some { enclosing := outerIndex below, values := top } := by
  obtain ⟨outer, hlength, hframes⟩ := frames_eq_append top below
  rw [hframes, List.append_assoc, ← hlength, List.getElem?_append_right (Nat.le_refl _)]
  simp

theorem walk_frames (name : String) (top : Bindings) (below : List Bindings) (extra : List Frame)
    {steps : Nat} (h : below.length < steps) :
    (Arena.mk (frames top below ++ extra)).walk name steps (some below.length) =
      match locate name top below with
      | some (place, value) => .bound place value
      | none => .unbound := by
  induction below generalizing top extra steps with
  | nil =>
      obtain ⟨more, rfl⟩ := Nat.exists_eq_add_of_lt h
      rw [walk_step name _ (getElem?_frames top [] extra)]
      unfold locate
      cases top.get? name with
      | none =>
          dsimp only [outerIndex]
          rw [Arena.walk]
      | some value => rfl
  | cons next more ih =>
      obtain ⟨others, rfl⟩ := Nat.exists_eq_add_of_lt h
      rw [walk_step name _ (getElem?_frames top (next :: more) extra)]
      unfold locate
      cases top.get? name with
      | none =>
          simp only [outerIndex, frames, List.append_assoc]
          exact ih next _ (by simp only [List.length_cons]; omega)
      | some value => rfl

theorem Represents.lookup {scopes : Scopes} {machine : Machine} (h : Represents scopes machine)
    (name : String) :
    machine.arena.lookup machine.frame name =
      match locate name scopes.top scopes.below with
      | some (place, value) => .bound place value
      | none => .unbound := by
  have hwalk := walk_frames name scopes.top scopes.below [] (Nat.lt_add_of_pos_right
    (by decide : 0 < 2))
  rw [List.append_nil] at hwalk
  rw [h.arena, h.frame, ← hwalk, Arena.lookup]
  simp [Scopes.arena, Arena.size]

theorem Represents.get {scopes : Scopes} {machine : Machine} (h : Represents scopes machine)
    (name : Token) :
    machine.arena.get machine.frame name =
      match scopes.get? name.lexeme with
      | some value => .ok value
      | none => .error (.runtime (undefined name)) := by
  rw [Arena.get, h.lookup, Scopes.get?, lookup_eq_locate]
  cases locate name.lexeme scopes.top scopes.below <;> rfl

/-! ## Changing maps -/

theorem modify_append_left {α : Type} (f : α → α) {front back : List α} {i : Nat}
    (h : i < front.length) : (front ++ back).modify i f = front.modify i f ++ back := by
  apply List.ext_getElem?
  intro j
  grind

theorem modify_append_length {α : Type} (f : α → α) (front : List α) (last : α) :
    (front ++ [last]).modify front.length f = front ++ [f last] := by
  apply List.ext_getElem?
  intro j
  grind

def bindIn (name : String) (value : Value) (frame : Frame) : Frame :=
  { frame with values := frame.values.insert name value }

theorem frames_insert_top (name : String) (value : Value) (top : Bindings)
    (below : List Bindings) :
    (frames top below).modify below.length (bindIn name value) =
      frames (top.insert name value) below := by
  cases below with
  | nil => rfl
  | cons next more =>
      have hmodify := modify_append_length (bindIn name value) (frames next more)
        { enclosing := some more.length, values := top }
      rw [length_frames] at hmodify
      exact hmodify

theorem locate_lt {name : String} {top : Bindings} {below : List Bindings} {place : Nat}
    {value : Value} (h : locate name top below = some (place, value)) :
    place < below.length + 1 := by
  induction below generalizing top with
  | nil =>
      unfold locate at h
      split at h <;> simp_all
  | cons next more ih =>
      unfold locate at h
      split at h
      next => simp_all
      next hnil => cases hnil
      next hcons =>
        obtain ⟨rfl, rfl⟩ := List.cons.inj hcons
        have hplace := ih h
        simp only [List.length_cons]
        omega

/-- Changing the topmost binding of a name changes one frame, the one a walk comes to. -/
theorem update_frames {name : String} (value : Value) {top : Bindings} {below : List Bindings} :
    match locate name top below with
    | none => Scopes.update name value top below = none
    | some (place, _) =>
        ∃ scopes, Scopes.update name value top below = some scopes ∧
          scopes.below.length = below.length ∧
          (frames top below).modify place (bindIn name value) = scopes.arena.frames := by
  induction below generalizing top with
  | nil =>
      unfold locate Scopes.update
      cases top.get? name with
      | none => rfl
      | some old => exact ⟨_, rfl, rfl, rfl⟩
  | cons next more ih =>
      unfold locate Scopes.update
      cases top.get? name with
      | none =>
          dsimp only
          specialize @ih next
          cases hlocate : locate name next more with
          | none =>
              rw [hlocate] at ih
              simp [ih]
          | some found =>
              rw [hlocate] at ih
              obtain ⟨scopes, hupdate, hlength, hframes⟩ := ih
              refine ⟨scopes.under top, by rw [hupdate]; rfl, by simp [Scopes.under, hlength], ?_⟩
              have hplace : found.1 < (frames next more).length := by
                rw [length_frames]
                exact locate_lt hlocate
              rw [frames, modify_append_left _ hplace, hframes]
              simp [Scopes.arena, Scopes.under, frames, hlength]
      | some old => exact ⟨⟨top.insert name value, next :: more⟩, rfl, rfl, frames_insert_top ..⟩

theorem Represents.assign {scopes : Scopes} {machine : Machine} (h : Represents scopes machine)
    (name : Token) (value : Value) :
    match scopes.assign? name.lexeme value with
    | none => machine.arena.assign machine.frame name value = .error (.runtime (undefined name))
    | some scopes' =>
        machine.arena.assign machine.frame name value = .ok scopes'.arena ∧
          scopes'.below.length = scopes.below.length := by
  have hupdate := @update_frames name.lexeme value scopes.top scopes.below
  rw [Arena.assign, h.lookup, Scopes.assign?]
  cases hlocate : locate name.lexeme scopes.top scopes.below with
  | none =>
      rw [hlocate] at hupdate
      rw [hupdate]
      rfl
  | some found =>
      rw [hlocate] at hupdate
      obtain ⟨scopes', hscopes, hlength, hframes⟩ := hupdate
      rw [hscopes, h.arena]
      exact ⟨congrArg (fun frames => Except.ok (Arena.mk frames)) hframes, hlength⟩

theorem Represents.define {scopes : Scopes} {machine : Machine} (h : Represents scopes machine)
    (name : String) (value : Value) :
    machine.arena.define machine.frame name value = .ok (scopes.define name value).arena := by
  have hlt : machine.frame < machine.arena.size := by
    rw [h.arena, h.frame]
    simp [Scopes.arena, Arena.size]
  rw [Arena.define, place?_of_lt hlt, h.arena, h.frame]
  exact congrArg (fun frames => Except.ok (Arena.mk frames))
    (frames_insert_top name value scopes.top scopes.below)

/-! ## Blocks -/

theorem Represents.enterBlock {scopes : Scopes} {machine : Machine}
    (h : Represents scopes machine) : Represents (scopes.under {}) machine.enterBlock := by
  constructor
  · simp [Machine.enterBlock, Arena.push, h.arena, h.frame, Scopes.arena, Scopes.under, frames]
  · simp [Machine.enterBlock, h.arena, Scopes.arena, Scopes.under, Arena.size]

theorem Represents.leaveBlock {scopes : Scopes} {inner : Bindings} {machine : Machine}
    (h : Represents (scopes.under inner) machine) :
    Represents scopes
      (machine.leaveBlock (scopes.below.length + 1) scopes.below.length) := by
  constructor
  · simp [Machine.leaveBlock, h.arena, Scopes.arena, Scopes.under, frames]
  · simp [Machine.leaveBlock]

end LoxLang.Scoping

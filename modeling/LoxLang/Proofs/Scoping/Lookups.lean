import LoxLang.Proofs.Effects.Confinement

/-!
# Reads and assignments come to the same binding

Where frames are enclosed by earlier ones only, looking a name up from a frame comes to
the first frame on the way outward that binds it, and both reading and assigning do so.
A binding that changes is seen from exactly the frames whose way outward gets to it.
-/

namespace LoxLang.Arena

open Scoping

/-- Every frame is enclosed by none or by one that was there before it. -/
def Ordered (arena : Arena) : Prop :=
  ∀ place frame, arena.frames[place]? = some frame →
    frame.enclosing = none ∨ ∃ outer : Nat, outer < place ∧ frame.enclosing = some (outer : Int)

/-- The way outward from a frame gets to the target, and no frame before it binds the name. -/
inductive Reaches (arena : Arena) (name : String) : (place target : Nat) → Prop
  | here {place} : place < arena.size → Reaches arena name place place
  | outward {place target frame} {outer : Nat} :
      arena.frames[place]? = some frame → frame.values.get? name = none →
      frame.enclosing = some (outer : Int) → Reaches arena name outer target →
      Reaches arena name place target

structure Resolves (arena : Arena) (name : String) (place target : Nat) : Prop where
  reached : arena.Reaches name place target
  bound : arena.valueAt? target name ≠ none

variable {arena : Arena} {name name' : String} {place target steps : Nat} {value : Value}

/-! ## The way outward -/

theorem exists_frame (h : place < arena.size) : ∃ frame, arena.frames[place]? = some frame :=
  ⟨_, List.getElem?_eq_getElem h⟩

theorem Ordered.outer_lt (h : arena.Ordered) {frame : Frame} {outer : Nat}
    (hframe : arena.frames[place]? = some frame) (houter : frame.enclosing = some (outer : Int)) :
    outer < place := by
  obtain hnone | ⟨_, hlt, hsome⟩ := h place frame hframe
  · simp [hnone] at houter
  · rw [hsome, Option.some.injEq] at houter
    omega

theorem Ordered.target_le (h : arena.Ordered) (hreaches : arena.Reaches name place target) :
    target ≤ place := by
  induction hreaches with
  | here => exact Nat.le_refl _
  | outward hframe _ houter _ ih =>
      have hlt := h.outer_lt hframe houter
      omega

theorem Reaches.eq_of_bound (h : arena.Reaches name place target)
    (hbound : arena.valueAt? place name ≠ none) : target = place := by
  cases h with
  | here => rfl
  | outward hframe hnone => exact absurd (by simp [valueAt?, hframe, hnone]) hbound

theorem Ordered.walk_of_reaches (h : arena.Ordered) (hreaches : arena.Reaches name place target)
    (hvalue : arena.valueAt? target name = some value) (hsteps : place < steps) :
    arena.walk name steps (some place) = .bound target value := by
  induction hreaches generalizing steps with
  | here hlt =>
      obtain ⟨steps, rfl⟩ := Nat.exists_eq_add_one_of_ne_zero (by omega : steps ≠ 0)
      obtain ⟨frame, hframe⟩ := exists_frame hlt
      have hbound : frame.values.get? name = some value := by simpa [valueAt?, hframe] using hvalue
      rw [walk_step name steps hframe, hbound]
  | outward hframe hnone houter _ ih =>
      obtain ⟨steps, rfl⟩ := Nat.exists_eq_add_one_of_ne_zero (by omega : steps ≠ 0)
      have hlt := h.outer_lt hframe houter
      rw [walk_step name steps hframe, hnone]
      simp only [houter]
      exact ih hvalue (by omega)

theorem Ordered.resolves_or_unbound (h : arena.Ordered) (name : String)
    (hplace : place < arena.size) :
    (∃ target, arena.Resolves name place target) ∨
      ∀ steps, place < steps → arena.walk name steps (some place) = .unbound := by
  induction place using Nat.strongRecOn with
  | ind place ih =>
      obtain ⟨frame, hframe⟩ := exists_frame hplace
      cases hvalue : frame.values.get? name with
      | some value => exact .inl ⟨place, .here hplace, by simp [valueAt?, hframe, hvalue]⟩
      | none =>
          have hstep (steps : Nat) : arena.walk name (steps + 1) (some place) =
              arena.walk name steps frame.enclosing := by
            rw [walk_step name steps hframe, hvalue]
          obtain hnone | ⟨outer, hlt, houter⟩ := h place frame hframe
          · right
            intro steps hsteps
            obtain ⟨steps, rfl⟩ := Nat.exists_eq_add_one_of_ne_zero (by omega : steps ≠ 0)
            rw [hstep, hnone, walk]
          · obtain ⟨target, hreached, hbound⟩ | hunbound := ih outer hlt (by omega)
            · exact .inl ⟨target, .outward hframe hvalue houter hreached, hbound⟩
            · right
              intro steps hsteps
              obtain ⟨steps, rfl⟩ := Nat.exists_eq_add_one_of_ne_zero (by omega : steps ≠ 0)
              rw [hstep, houter, hunbound steps (by omega)]

/-! ## The frame that an index names -/

theorem lt_of_place? {index : Int} (h : arena.place? index = some place) : place < arena.size := by
  unfold place? at h
  grind

theorem lookup_place? {index : Int} (h : arena.place? index = some place) (name : String) :
    arena.lookup index name = arena.lookup place name := by
  simp only [lookup, walk, h, place?_of_lt (lt_of_place? h)]

theorem get_place? {index : Int} (h : arena.place? index = some place) (name : Token) :
    arena.get index name = arena.get place name := by
  simp only [get, lookup_place? h]

theorem assign_place? {index : Int} (h : arena.place? index = some place) (name : Token)
    (value : Value) : arena.assign index name value = arena.assign place name value := by
  simp only [assign, lookup_place? h]

theorem Ordered.lookup_of_resolves (h : arena.Ordered)
    (hresolves : arena.Resolves name place target) (hplace : place < arena.size) :
    ∃ value, arena.valueAt? target name = some value ∧
      arena.lookup place name = .bound target value := by
  obtain ⟨value, hvalue⟩ := Option.ne_none_iff_exists'.mp hresolves.bound
  exact ⟨value, hvalue, h.walk_of_reaches hresolves.reached hvalue (by omega)⟩

/-! ## One binding changed -/

def rebind (arena : Arena) (target : Nat) (name : String) (value : Value) : Arena :=
  ⟨arena.frames.modify target (bindIn name value)⟩

structure Rebinds (before after : Arena) (target : Nat) (name : String) (value : Value) : Prop where
  frames : ∀ place, place ≠ target → after.frames[place]? = before.frames[place]?
  enclosing : after.frames.map Frame.enclosing = before.frames.map Frame.enclosing
  there : after.valueAt? target name = some value
  others : ∀ name', name' ≠ name → after.valueAt? target name' = before.valueAt? target name'

/-- From the frames that see the change a name reads the value, all else reads as before. -/
structure Rereads (before after : Arena) (name : String) (value : Value) (sees : Nat → Prop) :
    Prop where
  seen : ∀ {index place} {token : Token}, before.place? index = some place →
    token.lexeme = name → sees place → after.get index token = .ok value
  unseen : ∀ {index place} {token : Token}, before.place? index = some place →
    ¬(token.lexeme = name ∧ sees place) → after.get index token = before.get index token

@[simp] theorem size_rebind (arena : Arena) (target : Nat) (name : String) (value : Value) :
    (arena.rebind target name value).size = arena.size := by
  simp [rebind, size]

theorem place?_rebind (arena : Arena) (target : Nat) (name : String) (value : Value)
    (index : Int) : (arena.rebind target name value).place? index = arena.place? index := by
  simp only [place?, size_rebind]

theorem frame_rebind (arena : Arena) (name : String) (value : Value) (h : place ≠ target) :
    (arena.rebind target name value).frames[place]? = arena.frames[place]? := by
  simp [rebind, Ne.symm h]

theorem rebinds (name : String) (value : Value) (h : target < arena.size) :
    Rebinds arena (arena.rebind target name value) target name value where
  frames := fun _ hne => frame_rebind arena name value hne
  enclosing := Frames.enclosing_modify arena.frames target name value
  there := by simp [rebind, valueAt?_modify, h]
  others := fun name' hne => by simp [rebind, valueAt?_modify, Ne.symm hne]

theorem Ordered.rebind (h : arena.Ordered) (target : Nat) (name : String) (value : Value) :
    (arena.rebind target name value).Ordered := by
  intro place frame hframe
  by_cases hplace : place = target
  · subst hplace
    rw [Arena.rebind, List.getElem?_modify_eq] at hframe
    obtain ⟨old, hold, rfl⟩ := Option.map_eq_some_iff.mp hframe
    exact h place old hold
  · rw [frame_rebind arena name value hplace] at hframe
    exact h place frame hframe

theorem Ordered.reaches_rebind (h : arena.Ordered) (hreaches : arena.Reaches name place target)
    (name' : String) (value : Value) :
    (arena.rebind target name' value).Reaches name place target := by
  induction hreaches with
  | here hlt => exact .here (by simpa using hlt)
  | outward hframe hnone houter hrest ih =>
      have hlt := h.outer_lt hframe houter
      have hle := h.target_le hrest
      refine .outward ?_ hnone houter ih
      rwa [frame_rebind arena name' value (by omega)]

theorem Ordered.walk_rebind (h : arena.Ordered) (value : Value) (hplace : place < arena.size)
    (hmiss : ¬(name' = name ∧ arena.Reaches name' place target)) (steps : Nat) :
    (arena.rebind target name value).walk name' steps (some place) =
      arena.walk name' steps (some place) := by
  induction steps generalizing place with
  | zero => rfl
  | succ steps ih =>
      obtain ⟨frame, hframe⟩ := exists_frame hplace
      have hsame : ∃ frame', (arena.rebind target name value).frames[place]? = some frame' ∧
          frame'.enclosing = frame.enclosing ∧
          frame'.values.get? name' = frame.values.get? name' := by
        by_cases htarget : place = target
        · subst htarget
          have hne : name ≠ name' := fun heq => hmiss ⟨heq.symm, .here hplace⟩
          refine ⟨bindIn name value frame, by simp [Arena.rebind, hframe], rfl, ?_⟩
          simp [bindIn, hne]
        · exact ⟨frame, by rw [frame_rebind arena name value htarget, hframe], rfl, rfl⟩
      obtain ⟨frame', hframe', henclosing, hget⟩ := hsame
      rw [walk_step name' steps hframe', walk_step name' steps hframe, hget, henclosing]
      cases hvalue : frame.values.get? name' with
      | some found => rfl
      | none =>
          obtain hnone | ⟨outer, hlt, houter⟩ := h place frame hframe
          · simp only [hnone, walk]
          · simp only [houter]
            refine ih (by omega) ?_
            rintro ⟨heq, hreaches⟩
            exact hmiss ⟨heq, .outward hframe hvalue houter hreaches⟩

theorem Ordered.rereads (h : arena.Ordered) (name : String) (value : Value)
    (htarget : target < arena.size) :
    Rereads arena (arena.rebind target name value) name value (arena.Reaches name · target) where
  seen := by
    rintro index place token hindex rfl hreaches
    have hplace := lt_of_place? hindex
    have hwalk := (h.rebind target token.lexeme value).walk_of_reaches
      (h.reaches_rebind hreaches token.lexeme value) (rebinds token.lexeme value htarget).there
      (by omega : place < arena.size + 1)
    rw [get_place? ((place?_rebind ..).trans hindex), get, lookup, size_rebind, hwalk]
  unseen := by
    intro index place token hindex hmiss
    have hmiss' : ¬(token.lexeme = name ∧ arena.Reaches token.lexeme place target) := by
      rintro ⟨rfl, hreaches⟩
      exact hmiss ⟨rfl, hreaches⟩
    have hwalk := h.walk_rebind value (lt_of_place? hindex) hmiss' (arena.size + 1)
    rw [get_place? ((place?_rebind ..).trans hindex), get_place? hindex, get, get, lookup, lookup,
      size_rebind, hwalk]

/-! ## Assignments and declarations -/

theorem assign_iff_get (arena : Arena) (place : Nat) (name : Token) (value : Value) :
    (∃ after, arena.assign place name value = .ok after) ↔
      ∃ old, arena.get place name = .ok old := by
  simp only [assign, get]
  cases arena.lookup place name.lexeme <;> simp

theorem Ordered.assign_of_resolves (h : arena.Ordered) {token : Token}
    (hresolves : arena.Resolves token.lexeme place target) (hplace : place < arena.size)
    (value : Value) :
    arena.assign place token value = .ok (arena.rebind target token.lexeme value) := by
  obtain ⟨old, -, hlookup⟩ := h.lookup_of_resolves hresolves hplace
  rw [assign, hlookup]
  rfl

theorem assign_of_unbound {token : Token} (h : arena.lookup place token.lexeme = .unbound)
    (value : Value) : arena.assign place token value = .error (.runtime (undefined token)) := by
  rw [assign, h]
  rfl

theorem Ordered.unbound_of_get (h : arena.Ordered) {token : Token} {fault : Fault}
    (hplace : place < arena.size) (hget : arena.get place token = .error fault) :
    arena.lookup place token.lexeme = .unbound ∧ fault = .runtime (undefined token) := by
  obtain ⟨target, hresolves⟩ | hunbound := h.resolves_or_unbound token.lexeme hplace
  · obtain ⟨old, -, hlookup⟩ := h.lookup_of_resolves hresolves hplace
    rw [get, hlookup] at hget
    cases hget
  · have hlookup : arena.lookup place token.lexeme = .unbound := hunbound _ (by omega)
    rw [get, hlookup] at hget
    exact ⟨hlookup, (Except.error.inj hget).symm⟩

theorem Ordered.rereads_resolved (h : arena.Ordered) (hresolves : arena.Resolves name place target)
    (htarget : target < arena.size) (value : Value) :
    Rereads arena (arena.rebind target name value) name value (arena.Resolves name · target) where
  seen := fun hindex htoken hsees =>
    (h.rereads name value htarget).seen hindex htoken hsees.reached
  unseen := fun hindex hmiss =>
    (h.rereads name value htarget).unseen hindex fun hboth =>
      hmiss ⟨hboth.1, hboth.2, hresolves.bound⟩

theorem define_place? {index : Int} (h : arena.place? index = some place) (name : String)
    (value : Value) : arena.define index name value = .ok (arena.rebind place name value) := by
  rw [define, h]
  rfl

theorem Rereads.get_eq_iff {before after : Arena} {sees : Nat → Prop}
    (h : Rereads before after name value sees) {index : Int} {token : Token}
    (hindex : before.place? index = some place) (htoken : token.lexeme = name) :
    after.get index token = .ok value ↔ sees place ∨ before.get index token = .ok value := by
  by_cases hsees : sees place
  · simp [h.seen hindex htoken hsees, hsees]
  · rw [h.unseen hindex fun hboth => hsees hboth.2]
    simp [hsees]

/--
From a frame, a name can be assigned if and only if it can be read.  Then the binding that
changes is the one that is read, and it is read in its new form from exactly the frames
that resolve the name to it.  Else both fail in the same way, and no frame changes.  A
declaration changes the frame it names, and is read from where the way outward gets there.
-/
theorem assign_resolves_as_get (h : arena.Ordered) {index : Int}
    (hplace : arena.place? index = some place) (name : Token) (value : Value) :
    ((∃ after, arena.assign index name value = .ok after) ↔
      ∃ old, arena.get index name = .ok old) ∧
    (∀ after, arena.assign index name value = .ok after →
      ∃ target, arena.Resolves name.lexeme place target ∧
        Rebinds arena after target name.lexeme value ∧
        Rereads arena after name.lexeme value (arena.Resolves name.lexeme · target)) ∧
    (∀ fault, arena.get index name = .error fault →
      fault = .runtime (undefined name) ∧ arena.assign index name value = .error fault ∧
      ∀ machine : Machine, machine.arena = arena →
        Run.updateArena (·.assign index name value) machine = .error fault machine) ∧
    ∃ after, arena.define index name.lexeme value = .ok after ∧
      Rebinds arena after place name.lexeme value ∧
      Rereads arena after name.lexeme value (arena.Reaches name.lexeme · place) ∧
      ∀ {index' : Int} {place' : Nat} {token : Token}, arena.place? index' = some place' →
        token.lexeme = name.lexeme →
        (after.get index' token = .ok value ↔
          arena.Reaches name.lexeme place' place ∨ arena.get index' token = .ok value) := by
  have hlt := lt_of_place? hplace
  have hdefined := h.rereads name.lexeme value hlt
  rw [assign_place? hplace, get_place? hplace]
  refine ⟨assign_iff_get arena place name value, ?_, ?_, _, define_place? hplace name.lexeme value,
    rebinds name.lexeme value hlt, hdefined, hdefined.get_eq_iff⟩
  · intro after hafter
    obtain ⟨target, hresolves⟩ | hunbound := h.resolves_or_unbound name.lexeme hlt
    · have htarget : target < arena.size := by
        have hle := h.target_le hresolves.reached
        omega
      rw [h.assign_of_resolves hresolves hlt value] at hafter
      cases hafter
      exact ⟨target, hresolves, rebinds name.lexeme value htarget,
        h.rereads_resolved hresolves htarget value⟩
    · rw [assign_of_unbound (hunbound _ (by omega)) value] at hafter
      cases hafter
  · intro fault hfault
    obtain ⟨hunbound, rfl⟩ := h.unbound_of_get hlt hfault
    have hassign := assign_of_unbound hunbound value
    refine ⟨rfl, hassign, ?_⟩
    rintro machine rfl
    rw [Run.updateArena_apply, assign_place? hplace, hassign]

/-- Two frames inside the global one: the first has a binding of its own, the second has none. -/
def siblings : Arena :=
  ⟨[{ values := ⟨[("a", .nil)]⟩ }, { enclosing := some 0, values := ⟨[("a", .boolean true)]⟩ },
    { enclosing := some 0 }]⟩

theorem siblings_ordered : siblings.Ordered := by
  intro place frame hframe
  match place with
  | 0 => exact .inl (Option.some.inj hframe ▸ rfl)
  | 1 => exact .inr ⟨0, by decide, Option.some.inj hframe ▸ rfl⟩
  | 2 => exact .inr ⟨0, by decide, Option.some.inj hframe ▸ rfl⟩
  | place + 3 => cases hframe

theorem assign_resolves_as_get_siblings :
    let name : Token := .bare .identifier "a" 1
    siblings.Ordered ∧ siblings.place? (-1) = some 2 ∧
      ∃ after, siblings.assign (-1) name (.boolean false) = .ok after ∧
        after.get 0 name = .ok (.boolean false) ∧ after.get 2 name = .ok (.boolean false) ∧
        after.get 1 name = siblings.get 1 name := by
  intro name
  have hplace : siblings.place? (-1) = some 2 := rfl
  obtain ⟨hboth, hassign, -⟩ :=
    assign_resolves_as_get siblings_ordered hplace name (.boolean false)
  obtain ⟨after, hafter⟩ := hboth.mpr ⟨.nil, rfl⟩
  obtain ⟨target, hresolves, -, hreads⟩ := hassign after hafter
  have hglobal : siblings.Resolves "a" 0 0 := ⟨.here (by decide), by decide⟩
  obtain rfl : target = 0 := by
    cases hresolves.reached with
    | here => exact absurd rfl hresolves.bound
    | outward hframe _ houter hrest =>
        cases hframe
        obtain rfl := Int.natCast_inj.mp (Option.some.inj houter)
        exact hrest.eq_of_bound hglobal.bound
  have hfirst : siblings.place? 0 = some 0 := rfl
  have hsecond : siblings.place? 1 = some 1 := rfl
  have hthird : siblings.place? 2 = some 2 := rfl
  refine ⟨siblings_ordered, hplace, after, hafter, hreads.seen hfirst rfl hglobal,
    hreads.seen hthird rfl hresolves, hreads.unseen hsecond ?_⟩
  rintro ⟨-, hsibling⟩
  cases hsibling.reached.eq_of_bound (by decide)

end LoxLang.Arena

import LoxLang.Proofs.Scoping.Lookups

/-!
# Operations on an arena

An arena is changed by operations from outside.  As long as a new frame is put inside a
live one and the global frame is not released, every frame but the global one is enclosed
by an earlier one, whatever was released and pushed again in between.  In such an arena a
lookup meets live frames only, none of them twice, and so it ends.
-/

namespace LoxLang.Arena

open Scoping

inductive Operation where
  | size
  | push (enclosing : Int)
  | release (index : Int)
  | define (index : Int) (name : String) (value : Value)
  | get (index : Int) (name : Token)
  | assign (index : Int) (name : Token) (value : Value)
  deriving DecidableEq, Repr

namespace Operation

def apply (arena : Arena) : Operation → Except Fault Arena
  | size => .ok arena
  | push enclosing => .ok (arena.push (some enclosing)).2
  | release index => arena.release index
  | define index name value => arena.define index name value
  | get index name => (arena.get index name).map fun _ => arena
  | assign index name value => arena.assign index name value

/-- A new frame is put inside a live one, and the global frame is not released. -/
def Permitted (arena : Arena) : Operation → Prop
  | push enclosing => 0 ≤ enclosing ∧ enclosing < arena.size
  | release index => 0 < index
  | _ => True

instance (arena : Arena) : (operation : Operation) → Decidable (operation.Permitted arena)
  | push enclosing => inferInstanceAs (Decidable (0 ≤ enclosing ∧ enclosing < arena.size))
  | release index => inferInstanceAs (Decidable (0 < index))
  | size | define _ _ _ | get _ _ | assign _ _ _ => inferInstanceAs (Decidable True)

end Operation

/-- The arena after an operation, which changes nothing if it fails. -/
def after (arena : Arena) (operation : Operation) : Arena :=
  match operation.apply arena with
  | .ok changed => changed
  | .error _ => arena

inductive Reachable : Arena → Prop
  | initial : Reachable .initial
  | after {arena operation} :
      Reachable arena → Operation.Permitted arena operation → Reachable (arena.after operation)

structure Rooted (arena : Arena) : Prop where
  global : arena.frames[0]?.map Frame.enclosing = some none
  inner : ∀ place, 0 < place → place < arena.size → ∃ outer : Nat, outer < place ∧
    arena.frames[place]?.map Frame.enclosing = some (some (outer : Int))

/--
A lookup of a name goes from an index outward: the indices that it meets, and how it ends.
One that never ends is no walk.
-/
inductive Walks (arena : Arena) (name : String) : Option Int → List Int → Lookup → Prop
  | outside : Walks arena name none [] .unbound
  | dangles {index} : arena.place? index = none → Walks arena name (some index) [index] .dangling
  | finds {index place frame value} :
      arena.place? index = some place → arena.frames[place]? = some frame →
      frame.values.get? name = some value →
      Walks arena name (some index) [index] (.bound place value)
  | outward {index place frame met ending} :
      arena.place? index = some place → arena.frames[place]? = some frame →
      frame.values.get? name = none → Walks arena name frame.enclosing met ending →
      Walks arena name (some index) (index :: met) ending

/-- What reading and assigning a name answer when its lookup ends in the given way. -/
inductive Answers (arena : Arena) (index : Int) (name : Token) : Lookup → Prop
  | bound {place value} :
      arena.get index name = .ok value →
      (∀ value', ∃ changed, arena.assign index name value' = .ok changed) →
      Answers arena index name (.bound place value)
  | unbound :
      arena.get index name = .error (.runtime (undefined name)) →
      (∀ value', arena.assign index name value' = .error (.runtime (undefined name))) →
      Answers arena index name .unbound

variable {arena changed : Arena} {name : String} {index : Int} {place steps : Nat}
  {met : List Int} {ending : Lookup}

/-! ## What an operation keeps -/

theorem lt_size_of_enclosing {enclosing : Option Int}
    (h : arena.frames[place]?.map Frame.enclosing = some enclosing) : place < arena.size := by
  obtain ⟨frame, hframe, -⟩ := Option.map_eq_some_iff.mp h
  exact (List.getElem?_eq_some_iff.mp hframe).1

theorem rooted_initial : Rooted .initial where
  global := rfl
  inner := by
    intro place hpos hlt
    simp only [size_initial] at hlt
    omega

theorem Rooted.push (h : arena.Rooted) {enclosing : Nat} (hlive : enclosing < arena.size) :
    (arena.push (some (enclosing : Int))).2.Rooted := by
  have hframes : (arena.push (some (enclosing : Int))).2.frames =
      arena.frames ++ [{ enclosing := some (enclosing : Int) }] :=
    rfl
  constructor
  · rw [hframes, List.getElem?_append_left (lt_size_of_enclosing h.global)]
    exact h.global
  · intro place hpos hlt
    rw [size_push] at hlt
    rw [hframes]
    by_cases hlast : place < arena.size
    · rw [List.getElem?_append_left hlast]
      exact h.inner place hpos hlast
    · obtain rfl : place = arena.frames.length := by
        rw [size] at hlt hlast
        omega
      exact ⟨enclosing, hlive, by simp⟩

theorem Rooted.take (h : arena.Rooted) {count : Nat} (hcount : 0 < count) :
    Rooted ⟨arena.frames.take count⟩ := by
  constructor
  · rw [List.getElem?_take_of_lt hcount]
    exact h.global
  · intro place hpos hlt
    simp only [size, List.length_take] at hlt
    rw [List.getElem?_take_of_lt (by omega)]
    exact h.inner place hpos (by rw [size]; omega)

theorem Rooted.of_enclosing (h : arena.Rooted)
    (henclosing : changed.frames.map Frame.enclosing = arena.frames.map Frame.enclosing) :
    changed.Rooted := by
  have hframes (place : Nat) : changed.frames[place]?.map Frame.enclosing =
      arena.frames[place]?.map Frame.enclosing := by
    rw [← List.getElem?_map, ← List.getElem?_map, henclosing]
  have hsize : changed.size = arena.size := by
    simpa [size] using congrArg List.length henclosing
  constructor
  · rw [hframes]
    exact h.global
  · intro place hpos hlt
    rw [hframes]
    exact h.inner place hpos (hsize ▸ hlt)

theorem Rooted.apply (h : arena.Rooted) {operation : Operation}
    (hpermitted : operation.Permitted arena) (hchanged : operation.apply arena = .ok changed) :
    changed.Rooted := by
  cases operation with
  | size =>
      cases hchanged
      exact h
  | push enclosing =>
      obtain ⟨hnonneg, hlive⟩ := hpermitted
      obtain ⟨outer, rfl⟩ := Int.eq_ofNat_of_zero_le hnonneg
      cases hchanged
      exact h.push (by omega)
  | release index =>
      have hpos : 0 < index := hpermitted
      rw [Operation.apply, release, if_neg (by omega), if_pos hpos] at hchanged
      cases hchanged
      exact h.take (by omega)
  | define index name value => exact h.of_enclosing (Frames.enclosing_define hchanged)
  | get index name =>
      rw [Operation.apply] at hchanged
      cases hget : arena.get index name with
      | ok value =>
          rw [hget] at hchanged
          cases hchanged
          exact h
      | error fault =>
          rw [hget] at hchanged
          cases hchanged
  | assign index name value => exact h.of_enclosing (Frames.enclosing_assign hchanged)

theorem Rooted.after (h : arena.Rooted) {operation : Operation}
    (hpermitted : operation.Permitted arena) : (arena.after operation).Rooted := by
  rw [Arena.after]
  cases hchanged : operation.apply arena with
  | ok changed => exact h.apply hpermitted hchanged
  | error fault => exact h

theorem Reachable.rooted (h : Reachable arena) : arena.Rooted := by
  induction h with
  | initial => exact rooted_initial
  | after _ hpermitted ih => exact ih.after hpermitted

/-! ## Lookups end -/

theorem Walks.walk_eq {start : Option Int} (h : arena.Walks name start met ending)
    (hsteps : met.length ≤ steps) : arena.walk name steps start = ending := by
  induction h generalizing steps with
  | outside => rw [walk]
  | dangles hplace =>
      obtain ⟨fewer, rfl⟩ := Nat.exists_eq_add_one.mpr hsteps
      simp only [walk, hplace]
  | finds hplace hframe hvalue =>
      obtain ⟨fewer, rfl⟩ := Nat.exists_eq_add_one.mpr hsteps
      simp only [walk, hplace, hframe, hvalue]
  | outward hplace hframe hnone _ ih =>
      rw [List.length_cons] at hsteps
      obtain ⟨fewer, rfl⟩ := Nat.exists_eq_add_one.mpr (Nat.zero_lt_of_lt hsteps)
      simp only [walk, hplace, hframe, hnone]
      exact ih (Nat.le_of_succ_le_succ hsteps)

theorem Rooted.exists_walks (h : arena.Rooted) (name : String)
    (hplace : arena.place? index = some place) :
    ∃ met ending, arena.Walks name (some index) met ending ∧ met.length ≤ place + 1 ∧
      ∀ index ∈ met, ∃ place, arena.place? index = some place := by
  induction place using Nat.strongRecOn generalizing index with
  | ind place ih =>
      have hlt := lt_of_place? hplace
      obtain ⟨frame, hframe⟩ := exists_frame hlt
      cases hvalue : frame.values.get? name with
      | some value =>
          exact ⟨[index], _, .finds hplace hframe hvalue, by simp, by simp [hplace]⟩
      | none =>
          obtain rfl | hpos := Nat.eq_zero_or_pos place
          · have hnone : frame.enclosing = none := by simpa [hframe] using h.global
            have houtside : arena.Walks name frame.enclosing [] .unbound := hnone ▸ .outside
            exact ⟨[index], _, .outward hplace hframe hvalue houtside, by simp, by simp [hplace]⟩
          · obtain ⟨outer, houter, henclosing⟩ := h.inner place hpos hlt
            have hsome : frame.enclosing = some (outer : Int) := by
              simpa [hframe] using henclosing
            obtain ⟨met, ending, hwalks, hlength, hlive⟩ :=
              ih outer houter (place?_of_lt (by omega))
            rw [← hsome] at hwalks
            refine ⟨index :: met, ending, .outward hplace hframe hvalue hwalks, ?_, ?_⟩
            · rw [List.length_cons]
              omega
            · exact List.forall_mem_cons.mpr ⟨⟨place, hplace⟩, hlive⟩

theorem Walks.bound_or_unbound {start : Option Int} (h : arena.Walks name start met ending)
    (hlive : ∀ index ∈ met, ∃ place, arena.place? index = some place) :
    (∃ place value, ending = .bound place value) ∨ ending = .unbound := by
  induction h with
  | outside => exact .inr rfl
  | dangles hplace => simp [hplace] at hlive
  | finds => exact .inl ⟨_, _, rfl⟩
  | outward _ _ _ _ ih => exact ih (List.forall_mem_cons.mp hlive).2

theorem answers_of_lookup {token : Token} (h : arena.lookup index token.lexeme = ending)
    (hending : (∃ place value, ending = .bound place value) ∨ ending = .unbound) :
    arena.Answers index token ending := by
  obtain ⟨place, value, rfl⟩ | rfl := hending
  · exact .bound (by rw [get, h]) fun value' => ⟨_, by rw [assign, h]⟩
  · exact .unbound (by rw [get, h]; rfl) fun value' => by rw [assign, h]; rfl

/-- From a live frame a lookup ends after at most as many steps as there are frames. -/
theorem Rooted.lookup_ends (h : arena.Rooted) (hplace : arena.place? index = some place)
    (token : Token) :
    ∃ met ending, arena.Walks token.lexeme (some index) met ending ∧ met.length ≤ arena.size ∧
      (∀ index ∈ met, ∃ place, arena.place? index = some place) ∧
      arena.Answers index token ending := by
  obtain ⟨met, ending, hwalks, hlength, hlive⟩ := h.exists_walks token.lexeme hplace
  have hsize : met.length ≤ arena.size := by
    have hlt := lt_of_place? hplace
    omega
  have hlookup : arena.lookup index token.lexeme = ending :=
    hwalks.walk_eq (Nat.le_succ_of_le hsize)
  exact ⟨met, ending, hwalks, hsize, hlive,
    answers_of_lookup hlookup (hwalks.bound_or_unbound hlive)⟩

end LoxLang.Arena

import LoxLang.Proofs.Effects.Confinement

/-!
# What a run may change

An expression changes values only of the names that it assigns to.  Around a block that
holds of the names assigned in it where no declaration in front of the assignment hides
them: a hidden name is found in one of the frames that the block has entered, and these
are gone when it ends.
-/

namespace LoxLang

/-! ## Assignments in the text -/

def Expr.assigns (name : String) : Expr → Bool
  | assign target value => value.assigns name || target.lexeme == name
  | binary left _ right => left.assigns name || right.assigns name
  | grouping inner => inner.assigns name
  | literal _ => false
  | unary _ right => right.assigns name
  | reference _ => false
  | stray _ => false

def Stmt.declares (name : String) : Stmt → Bool
  | declare target _ => target.lexeme == name
  | _ => false

mutual

/-- Whether a statement holds an assignment to a name that is not hidden where it stands. -/
def Stmt.reassigns (name : String) : Stmt → Bool
  | .block body => Stmt.bodyReassigns name body
  | .expression value => value.assigns name
  | .print value => value.assigns name
  | .declare _ none => false
  | .declare _ (some initial) => initial.assigns name
  | .stray _ => false

/--
The same of the statements of a block.  A declaration hides its name from the
statements behind it up to the end of the block, those of inner blocks included.
-/
def Stmt.bodyReassigns (name : String) : List Stmt → Bool
  | [] => false
  | first :: rest =>
      first.reassigns name || !first.declares name && Stmt.bodyReassigns name rest

end

namespace Effects

open Frames Scoping Arena

/-! ## Inside a block -/

/-- The frames from `base` on are a chain, and if there are any, the last one is current. -/
structure Inside (base : Nat) (machine : Machine) : Prop where
  chained : ∀ i, base ≤ i → i + 1 < machine.arena.size →
    machine.arena.frames[i + 1]?.map Frame.enclosing = some (some (i : Int))
  innermost : base < machine.arena.size → machine.frame + 1 = machine.arena.size

/-- One of the frames from `base` on binds the name. -/
def Hides (base : Nat) (machine : Machine) (name : String) : Prop :=
  ∃ place, base ≤ place ∧ (machine.arena.valueAt? place name).isSome

structure Affects (base : Nat) (changes : String → Prop) (machine after : Machine) : Prop where
  frame : after.frame = machine.frame
  enclosing : after.arena.frames.map Frame.enclosing = machine.arena.frames.map Frame.enclosing
  bound : ∀ place name, (machine.arena.valueAt? place name).isSome →
    (after.arena.valueAt? place name).isSome
  outer : Confined (fun name => changes name ∧ ¬ Hides base machine name)
    (machine.arena.outer base) (after.arena.outer base)

section

variable {base : Nat} {changes changes' : String → Prop} {machine middle after : Machine}

theorem Affects.hides (h : Affects base changes machine after) {name : String}
    (hhides : Hides base machine name) : Hides base after name := by
  obtain ⟨place, hplace, hbound⟩ := hhides
  exact ⟨place, hplace, h.bound place name hbound⟩

theorem affects_of_eq (harena : after.arena = machine.arena) (hframe : after.frame = machine.frame) :
    Affects base changes machine after where
  frame := hframe
  enclosing := by rw [harena]
  bound := by simp [harena]
  outer := by
    rw [harena]
    exact .refl _

theorem affects_record (event : Event) (machine : Machine) :
    Affects base changes machine (machine.record event) :=
  affects_of_eq (by simp) (by simp)

theorem Affects.trans (h : Affects base changes machine middle)
    (h' : Affects base changes' middle after)
    (hsub : ∀ name, changes' name → ¬ Hides base middle name → changes name) :
    Affects base changes machine after where
  frame := h'.frame.trans h.frame
  enclosing := h'.enclosing.trans h.enclosing
  bound := fun place name hbound => h'.bound place name (h.bound place name hbound)
  outer := by
    refine h.outer.trans (h'.outer.mono ?_)
    rintro name ⟨hname, hvisible⟩
    exact ⟨hsub name hname hvisible, fun hhides => hvisible (h.hides hhides)⟩

theorem Affects.mono (h : Affects base changes machine after)
    (hsub : ∀ name, changes name → changes' name) : Affects base changes' machine after :=
  { h with outer := h.outer.mono fun name hname => ⟨hsub name hname.1, hname.2⟩ }

theorem Affects.size_eq (h : Affects base changes machine after) :
    after.arena.size = machine.arena.size := by
  simpa [size] using congrArg List.length h.enclosing

theorem Affects.inside (h : Affects base changes machine after) (hmachine : Inside base machine) :
    Inside base after where
  chained := by
    intro i hi hlt
    rw [h.size_eq] at hlt
    rw [← List.getElem?_map, h.enclosing, List.getElem?_map]
    exact hmachine.chained i hi hlt
  innermost := by
    rw [h.frame, h.size_eq]
    exact hmachine.innermost

end

/-! ## Looking hidden names up -/

variable {base : Nat} {machine : Machine}

theorem Inside.walk_of_bound (h : Inside base machine) {name : String} {place : Nat}
    (hplace : base ≤ place) (hbound : (machine.arena.valueAt? place name).isSome)
    {index steps : Nat} (hindex : place ≤ index) (hsize : index < machine.arena.size)
    (hsteps : index < steps) :
    ∃ found value, base ≤ found ∧ machine.arena.walk name steps (some index) = .bound found value := by
  induction index generalizing steps with
  | zero =>
      obtain ⟨more, rfl⟩ := Nat.exists_eq_add_of_lt hsteps
      obtain rfl : place = 0 := by omega
      have hframe := List.getElem?_eq_getElem (l := machine.arena.frames) hsize
      obtain ⟨value, hvalue⟩ := Option.isSome_iff_exists.mp hbound
      rw [valueAt?, hframe, Option.bind_some] at hvalue
      refine ⟨0, value, hplace, ?_⟩
      rw [walk_step name _ hframe, hvalue]
  | succ index ih =>
      obtain ⟨more, rfl⟩ := Nat.exists_eq_add_of_lt hsteps
      have hframe := List.getElem?_eq_getElem (l := machine.arena.frames) hsize
      rw [walk_step name _ hframe]
      cases hvalue : machine.arena.frames[index + 1].values.get? name with
      | some value => exact ⟨index + 1, value, by omega, rfl⟩
      | none =>
          -- The name is bound further out, and the frame leads to the next one there.
          have hne : place ≠ index + 1 := by
            rintro rfl
            simp [valueAt?, hframe, hvalue] at hbound
          have henclosing := h.chained index (by omega) hsize
          rw [hframe] at henclosing
          rw [Option.some.inj henclosing]
          exact ih (by omega) (by omega) (by omega)

theorem Inside.lookup_of_hides (h : Inside base machine) {name : String}
    (hhides : Hides base machine name) :
    ∃ found value, base ≤ found ∧
      machine.arena.lookup machine.frame name = .bound found value := by
  obtain ⟨place, hplace, hbound⟩ := hhides
  have hsize : place < machine.arena.size := by
    obtain ⟨value, hvalue⟩ := Option.isSome_iff_exists.mp hbound
    obtain ⟨frame, hframe, -⟩ := Option.bind_eq_some_iff.mp hvalue
    exact (List.getElem?_eq_some_iff.mp hframe).1
  have hinnermost := h.innermost (by omega)
  exact h.walk_of_bound hplace hbound (by omega) (by omega) (by omega)

/-! ## One binding changed -/

theorem bound_modify {arena : Arena} {place : Nat} {name : String} {value : Value}
    (place' : Nat) (name' : String) (h : (arena.valueAt? place' name').isSome) :
    (Arena.valueAt? ⟨arena.frames.modify place (bindIn name value)⟩ place' name').isSome := by
  rw [valueAt?_modify]
  split
  · rfl
  · exact h

theorem Inside.affects_assign (h : Inside base machine) {name : Token} {value : Value}
    {arena : Arena} (hassign : machine.arena.assign machine.frame name value = .ok arena) :
    Affects base (· = name.lexeme) machine { machine with arena } := by
  have henclosing := enclosing_assign hassign
  unfold Arena.assign at hassign
  split at hassign
  next place old hlookup =>
    obtain rfl := Except.ok.inj hassign
    refine ⟨rfl, henclosing, bound_modify, ?_⟩
    by_cases hplace : base ≤ place
    · rw [outer_modify_of_le hplace]
      exact .refl _
    · have hvisible : ¬ Hides base machine name.lexeme := by
        intro hhides
        obtain ⟨found, value', hfound, hlookup'⟩ := h.lookup_of_hides hhides
        rw [hlookup] at hlookup'
        obtain ⟨rfl, -⟩ := Lookup.bound.inj hlookup'
        exact hplace hfound
      have hbound := valueAt?_of_walk hlookup
      rw [← valueAt?_outer (Nat.lt_of_not_le hplace)] at hbound
      rw [outer_modify]
      exact confined_modify value hbound ⟨rfl, hvisible⟩
  next => cases hassign

theorem Inside.exists_bound (h : Inside base machine) (hbase : base < machine.arena.size)
    (name : Token) (value : Value) (changes : String → Prop) :
    ∃ arena after, machine.arena.define machine.frame name.lexeme value = .ok arena ∧
      { machine with arena }.record (.declare name.lexeme value machine.frame) = after ∧
      Affects base changes machine after ∧ Hides base after name.lexeme := by
  have hinnermost := h.innermost hbase
  have hframe : machine.frame < machine.arena.size := by omega
  have hdefine : machine.arena.define machine.frame name.lexeme value =
      .ok ⟨machine.arena.frames.modify machine.frame (bindIn name.lexeme value)⟩ := by
    rw [Arena.define, place?_of_lt hframe]
    rfl
  refine ⟨_, _, hdefine, rfl, ⟨?_, ?_, ?_, ?_⟩, machine.frame, by omega, ?_⟩
  · rw [Machine.frame_record]
  · rw [Machine.arena_record]
    exact enclosing_define hdefine
  · rw [Machine.arena_record]
    exact bound_modify
  · rw [Machine.arena_record, outer_modify_of_le (by omega)]
    exact .refl _
  · rw [Machine.arena_record, valueAt?_modify, if_pos ⟨rfl, rfl, hframe⟩]
    rfl

/-! ## Expressions -/

theorem last_operation (result : Except RuntimeError Value) (machine : Machine) :
    last (Run.operation result machine) = machine := by
  rw [Run.operation_apply]
  cases result <;> rfl

theorem last_unary (operator : Token) (right : Expr) (machine : Machine) :
    last ((Expr.unary operator right).evaluate machine) = last (right.evaluate machine) := by
  rw [Expr.evaluate_unary]
  cases right.evaluate machine with
  | ok operand after => exact last_operation _ _
  | error fault after => rfl

theorem last_binary (left : Expr) (operator : Token) (right : Expr) (machine : Machine) :
    last ((Expr.binary left operator right).evaluate machine) =
      match left.evaluate machine with
      | .ok _ middle => last (right.evaluate middle)
      | .error _ middle => middle := by
  rw [Expr.evaluate_binary]
  cases left.evaluate machine with
  | error fault middle => rfl
  | ok first middle =>
      dsimp only
      cases right.evaluate middle with
      | ok second after => exact last_operation _ _
      | error fault after => rfl

theorem evaluate_affects (expr : Expr) (h : Inside base machine) :
    Affects base (expr.assigns ·) machine (last (expr.evaluate machine)) := by
  induction expr generalizing machine with
  | literal value => exact affects_of_eq rfl rfl
  | grouping inner ih => exact ih h
  | unary operator right ih =>
      rw [last_unary]
      exact ih h
  | binary left operator right ihLeft ihRight =>
      have hleft : Affects base ((Expr.binary left operator right).assigns ·) machine
          (last (left.evaluate machine)) :=
        (ihLeft h).mono fun name hname => by simp [Expr.assigns, hname]
      rw [last_binary]
      cases hresult : left.evaluate machine with
      | error fault middle =>
          rw [hresult] at hleft
          exact hleft
      | ok first middle =>
          rw [hresult] at hleft
          exact hleft.trans (ihRight (hleft.inside h))
            fun name hname _ => by simp [Expr.assigns, hname]
  | reference name =>
      rw [Expr.evaluate_reference]
      cases machine.arena.get machine.frame name <;> exact affects_of_eq rfl rfl
  | assign target right ih =>
      have hright : Affects base ((Expr.assign target right).assigns ·) machine
          (last (right.evaluate machine)) :=
        (ih h).mono fun name hname => by simp [Expr.assigns, hname]
      rw [Expr.evaluate_assign]
      cases hresult : right.evaluate machine with
      | error fault after =>
          rw [hresult] at hright
          exact hright
      | ok value after =>
          rw [hresult] at hright
          dsimp only
          cases hassign : after.arena.assign after.frame target value with
          | error fault => exact hright
          | ok arena =>
              have htarget := hright.trans ((hright.inside h).affects_assign hassign)
                fun name hname _ => by simp [Expr.assigns, hname]
              exact htarget.trans (affects_record _ _) fun _ hname _ => hname
  | stray kind => exact affects_of_eq rfl rfl

/-! ## Blocks -/

theorem frames_enterBlock (machine : Machine) :
    machine.enterBlock.arena.frames =
      machine.arena.frames ++ [{ enclosing := some (machine.frame : Int) }] := by
  simp [Machine.enterBlock, push]

theorem size_enterBlock (machine : Machine) :
    machine.enterBlock.arena.size = machine.arena.size + 1 := by
  simp [size, frames_enterBlock]

theorem inside_enterBlock (machine : Machine) :
    Inside machine.arena.size machine.enterBlock where
  chained := by
    intro i hi hlt
    rw [size_enterBlock] at hlt
    omega
  innermost := by
    intro _
    rw [size_enterBlock]
    rfl

theorem Inside.enterBlock (h : Inside base machine) (hbase : base < machine.arena.size) :
    Inside base machine.enterBlock where
  chained := by
    intro i hi hlt
    rw [size_enterBlock] at hlt
    rw [frames_enterBlock]
    by_cases hlast : i + 1 < machine.arena.size
    · rw [List.getElem?_append_left hlast]
      exact h.chained i hi hlast
    · have hinnermost := h.innermost hbase
      obtain rfl : machine.frame = i := by omega
      rw [hinnermost, size, List.getElem?_concat_length]
      rfl
  innermost := by
    intro _
    rw [size_enterBlock]
    rfl

theorem lt_size_of_bound {arena : Arena} {place : Nat} {name : String}
    (h : (arena.valueAt? place name).isSome) : place < arena.size := by
  obtain ⟨value, hvalue⟩ := Option.isSome_iff_exists.mp h
  obtain ⟨frame, hframe, -⟩ := Option.bind_eq_some_iff.mp hvalue
  exact (List.getElem?_eq_some_iff.mp hframe).1

theorem valueAt?_enterBlock {place : Nat} (h : place < machine.arena.size) (name : String) :
    machine.enterBlock.arena.valueAt? place name = machine.arena.valueAt? place name := by
  rw [valueAt?, frames_enterBlock, List.getElem?_append_left h, valueAt?]

theorem outer_enterBlock (h : base ≤ machine.arena.size) :
    machine.enterBlock.arena.outer base = machine.arena.outer base := by
  rw [outer, frames_enterBlock, List.take_append_of_le_length h, outer]

theorem outer_outer {arena : Arena} {inner : Nat} (h : base ≤ inner) :
    (arena.outer inner).outer base = arena.outer base := by
  simp [outer, List.take_take, Nat.min_eq_left h]

theorem arena_leaveBlock (inner frame : Nat) (inside : Machine) :
    (inside.leaveBlock inner frame).arena = inside.arena.outer inner := by
  simp [Machine.leaveBlock, outer]

theorem Affects.leaveBlock {changes : String → Prop} {inside : Machine}
    (hbase : base < machine.arena.size) (h : Affects base changes machine.enterBlock inside) :
    Affects base changes machine (inside.leaveBlock machine.arena.size machine.frame) where
  frame := by simp [Machine.leaveBlock]
  enclosing := by
    have hlength : (machine.arena.frames.map Frame.enclosing).length = machine.arena.size :=
      List.length_map _
    have henclosing := congrArg (List.take machine.arena.size) h.enclosing
    rw [frames_enterBlock, List.map_append, List.take_left' hlength,
      ← List.map_take] at henclosing
    rw [arena_leaveBlock]
    exact henclosing
  bound := by
    intro place name hbound
    have hplace := lt_size_of_bound hbound
    rw [← valueAt?_enterBlock hplace] at hbound
    have hinside := h.bound place name hbound
    rw [arena_leaveBlock, valueAt?_outer hplace]
    exact hinside
  outer := by
    rw [arena_leaveBlock, outer_outer (Nat.le_of_lt hbase),
      ← outer_enterBlock (Nat.le_of_lt hbase)]
    refine h.outer.mono fun name hname => ⟨hname.1, ?_⟩
    rintro ⟨place, hplace, hbound⟩
    rw [← valueAt?_enterBlock (lt_size_of_bound hbound)] at hbound
    exact hname.2 ⟨place, hplace, hbound⟩

/-! ## Statements -/

theorem Inside.declare_affects (h : Inside base machine) (hbase : base < machine.arena.size)
    (name : Token) (initial : Option Expr) :
    Affects base ((Stmt.declare name initial).reassigns ·) machine
        (last ((Stmt.declare name initial).perform machine)) ∧
      ∀ after, (Stmt.declare name initial).perform machine = .ok () after →
        Hides base after name.lexeme := by
  cases initial with
  | none =>
      obtain ⟨arena, after, hdefine, hafter, haffects, hhides⟩ :=
        h.exists_bound hbase name .nil ((Stmt.declare name none).reassigns ·)
      rw [Stmt.perform_declare_none, hdefine]
      dsimp only
      rw [hafter]
      refine ⟨haffects, fun after' hresult => ?_⟩
      obtain ⟨-, rfl⟩ := EStateM.Result.ok.inj hresult
      exact hhides
  | some initial =>
      have hinitial := evaluate_affects initial h
      rw [Stmt.perform_declare_some]
      cases hresult : initial.evaluate machine with
      | error fault middle =>
          rw [hresult] at hinitial
          exact ⟨hinitial, fun after hafter => nomatch hafter⟩
      | ok value middle =>
          rw [hresult] at hinitial
          change Affects base (initial.assigns ·) machine middle at hinitial
          have hmiddle : base < middle.arena.size := by
            rw [hinitial.size_eq]
            exact hbase
          obtain ⟨arena, after, hdefine, hafter, haffects, hhides⟩ :=
            (hinitial.inside h).exists_bound hmiddle name value (initial.assigns ·)
          dsimp only
          rw [hdefine]
          dsimp only
          rw [hafter]
          refine ⟨hinitial.trans haffects fun _ hname _ => hname, fun after' hresult' => ?_⟩
          obtain ⟨-, rfl⟩ := EStateM.Result.ok.inj hresult'
          exact hhides

theorem Inside.hides_of_declares (h : Inside base machine) (hbase : base < machine.arena.size)
    {stmt : Stmt} {name : String} (hdeclares : stmt.declares name = true) {after : Machine}
    (hperform : stmt.perform machine = .ok () after) : Hides base after name := by
  cases stmt with
  | declare target initial =>
      obtain rfl : target.lexeme = name := by simpa [Stmt.declares] using hdeclares
      exact (h.declare_affects hbase target initial).2 after hperform
  | _ => cases hdeclares

mutual

theorem perform_affects (stmt : Stmt) {machine : Machine} (h : Inside base machine)
    (hbase : base < machine.arena.size) :
    Affects base (stmt.reassigns ·) machine (last (stmt.perform machine)) := by
  cases stmt with
  | expression value =>
      have hvalue := evaluate_affects value h
      rw [Stmt.perform_expression]
      cases hresult : value.evaluate machine <;> rw [hresult] at hvalue <;> exact hvalue
  | print value =>
      have hvalue := evaluate_affects value h
      rw [Stmt.perform_print]
      cases hresult : value.evaluate machine with
      | ok result after =>
          rw [hresult] at hvalue
          exact hvalue.trans (affects_of_eq rfl rfl) fun _ hname _ => hname
      | error fault after =>
          rw [hresult] at hvalue
          exact hvalue
  | declare name initial => exact (h.declare_affects hbase name initial).1
  | block body =>
      rw [Stmt.perform_block body (by omega)]
      have hbody := executeAll_affects body (h.enterBlock hbase)
        (by rw [size_enterBlock]; omega)
      cases hresult : Stmt.executeAll body machine.enterBlock <;> rw [hresult] at hbody <;>
        exact hbody.leaveBlock hbase
  | stray kind => exact affects_of_eq rfl rfl

theorem executeAll_affects (stmts : List Stmt) {machine : Machine} (h : Inside base machine)
    (hbase : base < machine.arena.size) :
    Affects base (Stmt.bodyReassigns · stmts) machine (last (Stmt.executeAll stmts machine)) := by
  cases stmts with
  | nil => exact affects_of_eq rfl rfl
  | cons first rest =>
      have hstart : Affects base (first.reassigns ·) machine
          (machine.record (.execute first.kind)) := affects_record _ _
      have hsize := hstart.size_eq
      have hfirst : Affects base (Stmt.bodyReassigns · (first :: rest)) machine
          (last (first.perform (machine.record (.execute first.kind)))) := by
        refine (hstart.trans (perform_affects first (hstart.inside h) (by omega))
          fun _ hname _ => hname).mono fun name hname => ?_
        simp [Stmt.bodyReassigns, hname]
      rw [Stmt.executeAll_cons]
      cases hresult : first.perform (machine.record (.execute first.kind)) with
      | error fault middle =>
          rw [hresult] at hfirst
          exact hfirst
      | ok value middle =>
          rw [hresult] at hfirst
          have hmiddle := hfirst.inside h
          have hrest := executeAll_affects rest hmiddle (by rw [hfirst.size_eq]; exact hbase)
          refine hfirst.trans hrest fun name hname hvisible => ?_
          -- A name that is changed behind a declaration of it would be hidden.
          have hdeclares : first.declares name = false := by
            apply eq_false_of_ne_true
            intro hdeclares
            exact hvisible ((hstart.inside h).hides_of_declares (by omega) hdeclares hresult)
          simp [Stmt.bodyReassigns, hdeclares, hname]

end

/--
Whatever frames there are and whichever is current, and however the run ends, an
expression and a block leave all frames with their links and with the names that they
bind.  Values change only of names that the expression assigns to, and around the block
of names that it assigns to where no declaration hides them; with no such name nothing
changes at all.
-/
theorem changes_confined (machine : Machine) :
    (∀ expr : Expr,
      Confined (expr.assigns ·) machine.arena (last (expr.evaluate machine)).arena) ∧
    (0 < machine.arena.size → ∀ body : List Stmt,
      Confined (Stmt.bodyReassigns · body) machine.arena
        (last ((Stmt.block body).perform machine)).arena) := by
  have houter : ∀ arena : Arena, machine.arena.size = arena.size →
      arena.outer machine.arena.size = arena := by
    intro arena hsize
    rw [hsize, outer, size, List.take_length]
  constructor
  · intro expr
    have hinside : Inside machine.arena.size machine :=
      ⟨fun i hi hlt => by omega, fun hlt => absurd hlt (Nat.lt_irrefl _)⟩
    have haffects := evaluate_affects expr hinside
    have hconfined := haffects.outer
    rw [houter _ rfl, houter _ haffects.size_eq.symm] at hconfined
    exact hconfined.mono fun _ hname => hname.1
  · intro hsize body
    have haffects := executeAll_affects body (inside_enterBlock machine)
      (by rw [size_enterBlock]; omega)
    have hconfined := haffects.outer
    rw [outer_enterBlock (Nat.le_refl _), houter _ rfl] at hconfined
    rw [Stmt.perform_block body hsize]
    cases hresult : Stmt.executeAll body machine.enterBlock <;> rw [hresult] at hconfined <;>
      simp only [last, arena_leaveBlock] <;> exact hconfined.mono fun _ hname => hname.1

def sampleMachine : Machine where
  arena := ⟨[{ values := ⟨[("a", .boolean true), ("b", .nil)]⟩ },
    { enclosing := some 0, values := ⟨[("a", .boolean false)]⟩ }]⟩

/-- `b = a; var a = nil; a = b; { a = nil; b = c; }`, which is stopped at `c`. -/
def sampleBody : List Stmt :=
  [.expression (.assign (.bare .identifier "b" 1) (.reference (.bare .identifier "a" 1))),
    .declare (.bare .identifier "a" 1) (some (.literal .nil)),
    .expression (.assign (.bare .identifier "a" 1) (.reference (.bare .identifier "b" 1))),
    .block [.expression (.assign (.bare .identifier "a" 1) (.literal .nil)),
      .expression (.assign (.bare .identifier "b" 1) (.reference (.bare .identifier "c" 1)))]]

theorem changes_confined_hiding :
    0 < sampleMachine.arena.size ∧
      (last ((Stmt.block sampleBody).perform sampleMachine)).arena.valueAt? 0 "a" =
        some (.boolean true) ∧
      (last ((Stmt.block sampleBody).perform sampleMachine)).arena.valueAt? 0 "b" =
        some (.boolean true) := by
  have hconfined := (changes_confined sampleMachine).2 (by decide) sampleBody
  refine ⟨by decide, ?_, rfl⟩
  apply Decidable.byContradiction
  intro hchanged
  have hreassigns := hconfined.values 0 "a" hchanged
  exact absurd hreassigns (by decide)

end Effects

end LoxLang

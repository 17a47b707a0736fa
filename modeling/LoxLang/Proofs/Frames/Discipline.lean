import LoxLang.Proofs.Execution.Steps

/-!
# The discipline of frames

Wherever a statement or an expression starts or ends, the frames form a chain and
the last one is current.  A run may enter frames, but it releases all that it
entered, however it ends; the frames that were there keep their places.
-/

namespace LoxLang.Frames

/-- Every frame is enclosed by the one before it, and the last frame is current. -/
structure Disciplined (machine : Machine) : Prop where
  global : machine.arena.frames[0]?.map Frame.enclosing = some none
  chained : ∀ i, i + 1 < machine.arena.size →
    machine.arena.frames[i + 1]?.map Frame.enclosing = some (some (i : Int))
  innermost : machine.frame + 1 = machine.arena.size

/-! ## Brackets -/

def isBracket : Event → Bool
  | .enterFrame _ _ => true
  | .releaseFrame _ => true
  | _ => false

def brackets (events : List Event) : List Event :=
  events.filter isBracket

/-- Brackets in pairs, nested, where each names the depth that it opens or closes. -/
inductive Nested : Nat → List Event → Prop
  | nil {depth} : Nested depth []
  | block {depth inside after} :
      Nested (depth + 1) inside → Nested depth after →
      Nested depth
        (.enterFrame (depth + 1) depth :: inside ++ .releaseFrame (depth + 1) :: after)

/-- Nested brackets up to a point among them, and the depth there. -/
inductive Opens : Nat → List Event → Nat → Prop
  | here {depth before} : Nested depth before → Opens depth before depth
  | inside {depth before within depth'} :
      Nested depth before → Opens (depth + 1) within depth' →
      Opens depth (before ++ .enterFrame (depth + 1) depth :: within) depth'

theorem Nested.append {depth : Nat} {first second : List Event} (h : Nested depth first)
    (h' : Nested depth second) : Nested depth (first ++ second) := by
  induction h with
  | nil => exact h'
  | block hinside _ _ ih =>
      have hafter := ih h'
      rw [List.append_assoc, List.cons_append]
      exact .block hinside hafter

theorem Opens.after {depth depth' : Nat} {first second : List Event} (h : Opens depth second depth')
    (hfirst : Nested depth first) : Opens depth (first ++ second) depth' := by
  cases h with
  | here hsecond => exact .here (hfirst.append hsecond)
  | inside hbefore hwithin =>
      rw [← List.append_assoc]
      exact .inside (hfirst.append hbefore) hwithin

/-- Frames are traced from level 3 on: all of them, and properly nested, or none. -/
structure Balanced (level : Int) (depth : Nat) (events : List Event) : Prop where
  nested : 3 ≤ level → Nested depth (brackets events)
  silent : level < 3 → brackets events = []

variable {level : Int} {depth : Nat} {events events' : List Event}

theorem brackets_append (events events' : List Event) :
    brackets (events ++ events') = brackets events ++ brackets events' :=
  List.filter_append _ _

theorem Balanced.append (h : Balanced level depth events) (h' : Balanced level depth events') :
    Balanced level depth (events ++ events') := by
  constructor
  · intro hlevel
    rw [brackets_append]
    exact (h.nested hlevel).append (h'.nested hlevel)
  · intro hlevel
    rw [brackets_append, h.silent hlevel, h'.silent hlevel, List.nil_append]

theorem Balanced.of_no_bracket (h : brackets events = []) : Balanced level depth events := by
  constructor
  · intro _
    rw [h]
    exact .nil
  · intro _
    exact h

theorem brackets_traced {event : Event} (h : isBracket event = true) :
    brackets (event.traced level) = event.traced level := by
  unfold brackets Event.traced
  split <;> simp [h]

theorem brackets_traced_other {event : Event} (h : isBracket event = false) :
    brackets (event.traced level) = [] := by
  unfold brackets Event.traced
  split <;> simp [h]

theorem Balanced.block (h : Balanced level (depth + 1) events) :
    Balanced level depth
      ((Event.enterFrame (depth + 1) depth).traced level ++ events ++
        (Event.releaseFrame (depth + 1)).traced level) := by
  constructor
  · intro hlevel
    have hnested := Nested.block (h.nested hlevel) .nil
    rw [brackets_append, brackets_append, brackets_traced rfl, brackets_traced rfl,
      (Event.enterFrame (depth + 1) depth).traced_of_le hlevel,
      (Event.releaseFrame (depth + 1)).traced_of_le hlevel]
    exact hnested
  · intro hlevel
    rw [brackets_append, brackets_append, brackets_traced rfl, brackets_traced rfl,
      h.silent hlevel, (Event.enterFrame (depth + 1) depth).traced_of_lt hlevel,
      (Event.releaseFrame (depth + 1)).traced_of_lt hlevel]
    rfl

/-! ## What a run keeps -/

/-- The frames are enclosed as they were, and those entered since are released. -/
structure Keeps (machine machine' : Machine) : Prop where
  enclosing : machine'.arena.frames.map Frame.enclosing =
    machine.arena.frames.map Frame.enclosing
  frame : machine'.frame = machine.frame
  level : machine'.level = machine.level
  trace : ∃ events, machine'.trace = machine.trace ++ events ∧
    Balanced machine.level machine.frame events

variable {machine machine' machine'' : Machine}

theorem Keeps.refl (machine : Machine) : Keeps machine machine :=
  ⟨rfl, rfl, rfl, [], (List.append_nil _).symm, .of_no_bracket rfl⟩

theorem Keeps.trans (h : Keeps machine machine') (h' : Keeps machine' machine'') :
    Keeps machine machine'' := by
  obtain ⟨events, htrace, hbalanced⟩ := h.trace
  obtain ⟨events', htrace', hbalanced'⟩ := h'.trace
  rw [h.level, h.frame] at hbalanced'
  refine ⟨h'.enclosing.trans h.enclosing, h'.frame.trans h.frame, h'.level.trans h.level,
    events ++ events', ?_, hbalanced.append hbalanced'⟩
  rw [htrace', htrace, List.append_assoc]

theorem Keeps.size (h : Keeps machine machine') : machine'.arena.size = machine.arena.size := by
  have hlength := congrArg List.length h.enclosing
  rw [List.length_map, List.length_map] at hlength
  exact hlength

theorem Keeps.disciplined (h : Keeps machine machine') (hmachine : Disciplined machine) :
    Disciplined machine' := by
  have hframes : ∀ i : Nat, machine'.arena.frames[i]?.map Frame.enclosing =
      machine.arena.frames[i]?.map Frame.enclosing := by
    intro i
    rw [← List.getElem?_map, ← List.getElem?_map, h.enclosing]
  constructor
  · rw [hframes]
    exact hmachine.global
  · intro i hi
    rw [h.size] at hi
    rw [hframes]
    exact hmachine.chained i hi
  · rw [h.frame, h.size]
    exact hmachine.innermost

theorem Keeps.record {event : Event} (h : isBracket event = false) (machine : Machine) :
    Keeps machine (machine.record event) := by
  refine ⟨by simp, by simp, by simp, _, Machine.trace_record _ _, ?_⟩
  exact .of_no_bracket (brackets_traced_other h)

/-! ## Blocks -/

theorem Disciplined.enterBlock (h : Disciplined machine) : Disciplined machine.enterBlock := by
  have hinnermost := h.innermost
  have hframes : machine.enterBlock.arena.frames =
      machine.arena.frames ++ [{ enclosing := some (machine.frame : Int) }] := by
    simp [Machine.enterBlock, Arena.push]
  have hsize : machine.enterBlock.arena.size = machine.arena.size + 1 := by
    simp [Arena.size, hframes]
  constructor
  · rw [hframes, List.getElem?_append_left (by rw [← Arena.size]; omega)]
    exact h.global
  · intro i hi
    rw [hframes]
    by_cases hlast : i + 1 < machine.arena.size
    · rw [List.getElem?_append_left hlast]
      exact h.chained i hlast
    · obtain rfl : machine.frame = i := by omega
      rw [hinnermost, Arena.size, List.getElem?_concat_length]
      rfl
  · rw [hsize]
    rfl

theorem frame_enterBlock (h : Disciplined machine) :
    machine.enterBlock.frame = machine.frame + 1 :=
  h.innermost.symm

theorem Keeps.block {inside : Machine} (hmachine : Disciplined machine)
    (h : Keeps machine.enterBlock inside) :
    Keeps machine (inside.leaveBlock machine.arena.size machine.frame) := by
  obtain ⟨events, htrace, hbalanced⟩ := h.trace
  have hlevel : inside.level = machine.level := by rw [h.level, Machine.level_enterBlock]
  rw [Machine.level_enterBlock, frame_enterBlock hmachine] at hbalanced
  refine ⟨?_, by simp [Machine.leaveBlock], by rw [Machine.level_leaveBlock, hlevel], _, ?_,
    hbalanced.block⟩
  · have henclosing := congrArg (List.take machine.arena.size) h.enclosing
    simpa [Machine.leaveBlock, Machine.enterBlock, Arena.push, Arena.size,
      List.map_take] using henclosing
  · rw [Machine.trace_leaveBlock, htrace, Machine.trace_enterBlock, hlevel, hmachine.innermost]
    simp only [List.append_assoc]

end LoxLang.Frames

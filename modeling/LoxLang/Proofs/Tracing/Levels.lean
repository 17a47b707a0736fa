import LoxLang.Proofs.Lockstep.Machines

/-!
# The levels of a trace

A machine that traces up to some level does what a machine does that traces everything,
and its trace is what the level shows of the whole trace.  This holds of machines in any
state and of trees of any kind, and wherever a run ends.
-/

namespace LoxLang

def Event.shownAt (level : Int) : Event → Bool
  | .execute _ => 1 ≤ level
  | .runtimeError _ => 1 ≤ level
  | .declare _ _ _ => 2 ≤ level
  | .assign _ _ => 2 ≤ level
  | .enterFrame _ _ => 3 ≤ level
  | .releaseFrame _ => 3 ≤ level

namespace Tracing

theorem traced_eq_filter (event : Event) (level : Int) :
    event.traced level = [event].filter (Event.shownAt level) := by
  have hshown : Event.shownAt level event = decide (event.level ≤ level) := by
    cases event <;> rfl
  by_cases hlevel : event.level ≤ level
  · simp [Event.traced, hshown, hlevel]
  · simp [Event.traced, hshown, hlevel]

theorem shownAt_of_three_le {level : Int} (h : 3 ≤ level) (event : Event) :
    Event.shownAt level event = true := by
  cases event <;> simp [Event.shownAt] <;> omega

/-- The one machine traces everything, and the other what its level shows of that. -/
structure Shadows (level : Int) (whole machine : Machine) : Prop where
  arena : machine.arena = whole.arena
  frame : machine.frame = whole.frame
  output : machine.output = whole.output
  trace : machine.trace = whole.trace.filter (Event.shownAt level)
  level : machine.level = level
  everything : 3 ≤ whole.level

theorem Shadows.record {level : Int} {whole machine : Machine} (h : Shadows level whole machine)
    (event : Event) : Shadows level (whole.record event) (machine.record event) := by
  have hwhole : event.traced whole.level = [event] := by
    rw [traced_eq_filter, List.filter_eq_self]
    exact fun other _ => shownAt_of_three_le h.everything other
  refine ⟨by simp [h.arena], by simp [h.frame], by simp [h.output], ?_, by simp [h.level],
    by simp [h.everything]⟩
  rw [Machine.trace_record, Machine.trace_record, hwhole, List.filter_append, h.trace, h.level,
    traced_eq_filter]

theorem indistinct_shadows (level : Int) : Machine.Indistinct (Shadows level) where
  arena := fun h => h.arena
  frame := fun h => h.frame
  withArena := fun _ h => { h with arena := rfl }
  withFrame := fun _ h => { h with frame := rfl }
  printing := fun line h => { h with output := congrArg (· ++ [line]) h.output }
  record := fun event h => h.record event

section

variable {level : Int} {whole machine : Machine}

theorem Shadows.evaluate (h : Shadows level whole machine) (expr : Expr) :
    Run.EndsAlike (Shadows level) (· = ·) (expr.evaluate whole) (expr.evaluate machine) := by
  have halike := Expr.Alike.refl (R := (· = ·)) (fun _ => rfl) expr
  exact halike.evaluate (indistinct_shadows level) Token.SameButLine.of_eq whole machine h

theorem Shadows.executeAll (h : Shadows level whole machine) (stmts : List Stmt) :
    Run.EndsAlike (Shadows level) (· = ·) (Stmt.executeAll stmts whole)
      (Stmt.executeAll stmts machine) := by
  have halike := Stmt.AllAlike.refl (R := (· = ·)) (fun _ => rfl) stmts
  exact halike.executeAll (indistinct_shadows level) Token.SameButLine.of_eq whole machine h

end

end Tracing

end LoxLang

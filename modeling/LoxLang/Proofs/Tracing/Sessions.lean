import Mathlib.Data.List.Forall2
import LoxLang.Proofs.Tracing.Levels
import LoxLang.Session

/-!
# The levels of a session's trace

Sessions that differ in the level of their traces take the same steps.  What a step
traces at a level is what the level shows of the step's whole trace.
-/

namespace LoxLang

def Session.atLevel (level : Int) (session : Session) : Session :=
  { session with machine := { session.machine with level } }

namespace Tracing

open Session

structure Observed where
  result : Except Fault Session.Result
  printed : List String
  report : Report
  exitCode : Nat
  arena : Arena
  frame : Nat

def observed (taken : Answer × Session) : Observed where
  result := taken.1.result
  printed := taken.1.output
  report := taken.2.report
  exitCode := taken.2.report.exitCode
  arena := taken.2.machine.arena
  frame := taken.2.machine.frame

structure Alongside (level : Int) (whole session : Session) : Prop where
  machine : Shadows level whole.machine session.machine
  report : session.report = whole.report

structure SameEnd {α : Type} (level : Int) (whole ended : Except Fault α × Session) : Prop where
  result : ended.1 = whole.1
  session : Alongside level whole.2 ended.2

structure SameStep (level : Int) (whole taken : Answer × Session) : Prop where
  result : taken.1.result = whole.1.result
  output : taken.1.output = whole.1.output
  trace : taken.1.trace = whole.1.trace.filter (Event.shownAt level)
  session : Alongside level whole.2 taken.2

section

variable {level : Int} {whole session : Session}

theorem Alongside.quiet (h : Alongside level whole session) :
    Alongside level whole.quiet session.quiet :=
  ⟨{ h.machine with output := rfl, trace := rfl }, h.report⟩

theorem quiet_atLevel (level : Int) (session : Session) :
    Alongside level (session.atLevel 3).quiet (session.atLevel level).quiet :=
  ⟨⟨rfl, rfl, rfl, rfl, rfl, Int.le_refl 3⟩, rfl⟩

theorem start_alongside (level : Int) : Alongside level (start 3) (start level) :=
  ⟨⟨rfl, rfl, rfl, rfl, rfl, Int.le_refl 3⟩, rfl⟩

theorem Alongside.clear (h : Alongside level whole session) :
    Alongside level whole.clear session.clear :=
  ⟨h.machine, congrArg Report.clear h.report⟩

theorem Alongside.reporting (h : Alongside level whole session) (diagnostics : List Diagnostic) :
    Alongside level (whole.reporting diagnostics) (session.reporting diagnostics) :=
  ⟨h.machine, congrArg (Report.addAll · diagnostics) h.report⟩

theorem Alongside.printing (h : Alongside level whole session) (line : String) :
    Alongside level (whole.printing line) (session.printing line) :=
  ⟨{ h.machine with output := congrArg (· ++ [line]) h.machine.output }, h.report⟩

/-! ## What a session can do -/

theorem interpret_same (statements : List Stmt) (h : Alongside level whole session) :
    SameEnd level (whole.interpret statements) (session.interpret statements) := by
  have hrun := h.machine.executeAll statements
  unfold Session.interpret
  generalize Stmt.executeAll statements whole.machine = ended at hrun ⊢
  generalize Stmt.executeAll statements session.machine = ended' at hrun ⊢
  cases hrun with
  | ok hmachine => exact ⟨rfl, hmachine, h.report⟩
  | @error fault _ _ _ hfault hmachine =>
      obtain rfl := hfault.eq
      cases fault with
      | runtime error =>
          exact ⟨rfl, hmachine.record _, congrArg (Report.add · error.diagnostic) h.report⟩
      | _ => exact ⟨rfl, hmachine, h.report⟩

theorem run_same (source : String) (h : Alongside level whole session) :
    SameEnd level (whole.run source) (session.run source) := by
  have hreported := h.clear.reporting (Program.ofSource source).diagnostics
  unfold Session.run
  dsimp only
  rw [hreported.report]
  split
  · exact ⟨rfl, hreported⟩
  · exact interpret_same _ hreported

theorem list_same (source : String) (h : Alongside level whole session) :
    SameEnd level (whole.list source) (session.list source) := by
  have hreported := h.clear.reporting (LeadingExpr.ofSource source).diagnostics
  unfold Session.list
  dsimp only
  rw [hreported.report]
  split
  · exact ⟨rfl, hreported⟩
  · split
    · exact ⟨rfl, hreported⟩
    · split
      · exact ⟨rfl, hreported.printing _⟩
      · exact ⟨rfl, hreported⟩

theorem evaluate_same (node : Expr) (h : Alongside level whole session) :
    SameEnd level (whole.evaluate node) (session.evaluate node) := by
  have hrun := h.machine.evaluate node
  unfold Session.evaluate
  generalize node.evaluate whole.machine = ended at hrun ⊢
  generalize node.evaluate session.machine = ended' at hrun ⊢
  cases hrun with
  | ok hmachine => exact ⟨rfl, hmachine, h.report⟩
  | error hfault hmachine =>
      obtain rfl := hfault.eq
      exact ⟨rfl, hmachine, h.report⟩

/-! ## Steps -/

theorem SameEnd.answer {α : Type} {ended ended' : Except Fault α × Session}
    (h : SameEnd level ended ended') (change : α → Session.Result) :
    SameStep level (Session.answer (ended.1.map change) ended.2)
      (Session.answer (ended'.1.map change) ended'.2) :=
  ⟨congrArg (Except.map change) h.result, h.session.machine.output, h.session.machine.trace,
    h.session⟩

theorem fresh_trace (source : String) : ((start 0).run source).2.machine.trace = [] := by
  rw [(run_same source (start_alongside 0)).session.machine.trace, List.filter_eq_nil_iff]
  intro event _
  cases event <;> simp [Event.shownAt]

theorem step_same (step : Session.Step) (h : Alongside level whole.quiet session.quiet) :
    SameStep level (whole.step step) (session.step step) := by
  cases step with
  | run source => exact (run_same source h).answer _
  | fresh source =>
      refine ⟨rfl, rfl, ?_, h⟩
      change ((start 0).run source).2.machine.trace =
        ((start 0).run source).2.machine.trace.filter _
      rw [fresh_trace, List.filter_nil]
  | list source => exact (list_same source h).answer _
  | force source => exact (interpret_same _ (h.reporting _)).answer _
  | interpret statements => exact (interpret_same statements h).answer _
  | evaluate node => exact (evaluate_same node h).answer _

theorem steps_same (steps : List Session.Step) (h : Alongside level whole.quiet session.quiet) :
    List.Forall₂ (SameStep level) (whole.steps steps) (session.steps steps) := by
  induction steps generalizing whole session with
  | nil => exact .nil
  | cons next rest ih =>
      have hnext := step_same next h
      exact .cons hnext (ih hnext.session.quiet)

end

theorem SameStep.observed_eq {level : Int} {whole taken : Answer × Session}
    (h : SameStep level whole taken) : observed whole = observed taken := by
  simp only [observed, h.result, h.output, h.session.report, h.session.machine.arena,
    h.session.machine.frame]

theorem map_eq_of_forall₂ {α β : Type} {related : α → α → Prop} {f g : α → β} {xs ys : List α}
    (h : List.Forall₂ related xs ys) (heq : ∀ x y, related x y → f x = g y) :
    xs.map f = ys.map g := by
  rw [← List.forall₂_eq_eq_eq, List.forall₂_map_left_iff, List.forall₂_map_right_iff]
  exact h.imp heq

/--
A session takes its steps in the same way whatever the level of its trace, and each
step's trace at a level is what the level shows of the whole trace.
-/
theorem steps_agree_at_levels (session : Session) (level level' : Int)
    (steps : List Session.Step) :
    ((session.atLevel level).steps steps).map observed =
        ((session.atLevel level').steps steps).map observed ∧
      ((session.atLevel level).steps steps).map (·.1.trace) =
        ((session.atLevel 3).steps steps).map fun taken =>
          taken.1.trace.filter (Event.shownAt level) := by
  have hsame := fun level => steps_same steps (quiet_atLevel level session)
  constructor
  · calc ((session.atLevel level).steps steps).map observed
        = ((session.atLevel 3).steps steps).map observed :=
          (map_eq_of_forall₂ (hsame level) fun _ _ h => h.observed_eq).symm
      _ = ((session.atLevel level').steps steps).map observed :=
          map_eq_of_forall₂ (hsame level') fun _ _ h => h.observed_eq
  · exact (map_eq_of_forall₂ (hsame level) fun _ _ h => h.trace.symm).symm

end Tracing

end LoxLang

import LoxLang.Proofs.Frames.Runs
import LoxLang.Session

/-!
# Frames over a session

A session starts with the global frame alone, and every step takes it from there
back to there, with whatever it ends.
-/

namespace LoxLang.Frames

/-- The machine stands in the global frame, and there is no other. -/
structure Resting (machine : Machine) : Prop where
  arena : ∃ globals, machine.arena = ⟨[{ values := globals }]⟩
  frame : machine.frame = 0

theorem Resting.disciplined {machine : Machine} (h : Resting machine) : Disciplined machine := by
  obtain ⟨globals, harena⟩ := h.arena
  constructor
  · rw [harena]
    rfl
  · intro i hi
    rw [harena] at hi
    simp [Arena.size] at hi
  · rw [harena, h.frame]
    rfl

theorem Keeps.resting {machine machine' : Machine} (h : Keeps machine machine')
    (hmachine : Resting machine) : Resting machine' := by
  obtain ⟨globals, harena⟩ := hmachine.arena
  have henclosing := h.enclosing
  rw [harena] at henclosing
  obtain ⟨frame, hframes, henclosing⟩ := List.map_eq_singleton_iff.mp henclosing
  obtain ⟨enclosing, values⟩ := frame
  refine ⟨⟨values, ?_⟩, h.frame.trans hmachine.frame⟩
  cases henclosing
  exact congrArg Arena.mk hframes

/-! ## Steps -/

theorem interpret_keeps (statements : List Stmt) {session : Session}
    (h : Disciplined session.machine) :
    Keeps session.machine (session.interpret statements).2.machine := by
  have hrun := executeAll_tidy statements session.machine h
  unfold Session.interpret
  cases hresult : Stmt.executeAll statements session.machine with
  | ok value machine =>
      rw [hresult] at hrun
      exact hrun
  | error fault machine =>
      rw [hresult] at hrun
      cases fault with
      | runtime error => exact hrun.trans (.record rfl machine)
      | _ => exact hrun

theorem run_keeps (source : String) {session : Session} (h : Disciplined session.machine) :
    Keeps session.machine (session.run source).2.machine := by
  unfold Session.run
  dsimp only
  split
  · exact .refl _
  · let cleared := session.clear.reporting (Program.ofSource source).diagnostics
    have hcleared : Disciplined cleared.machine := h
    exact interpret_keeps _ hcleared

theorem list_keeps (source : String) (session : Session) :
    Keeps session.machine (session.list source).2.machine := by
  unfold Session.list
  dsimp only
  split
  · exact .refl _
  · split
    · exact .refl _
    · split
      · exact ⟨rfl, rfl, rfl, [], (List.append_nil _).symm, .of_no_bracket rfl⟩
      · exact .refl _

theorem evaluate_keeps (node : Expr) {session : Session} (h : Disciplined session.machine) :
    Keeps session.machine (session.evaluate node).2.machine := by
  have hrun := evaluate_tidy node session.machine h
  unfold Session.evaluate
  cases hresult : node.evaluate session.machine with
  | ok value machine =>
      rw [hresult] at hrun
      exact hrun
  | error fault machine =>
      rw [hresult] at hrun
      exact hrun

theorem Keeps.rests {machine machine' : Machine} (h : Keeps machine machine')
    (hmachine : Resting machine) (htrace : machine.trace = []) :
    Resting machine' ∧ Nested 0 (brackets machine'.trace) := by
  refine ⟨h.resting hmachine, ?_⟩
  obtain ⟨events, hevents, hbalanced⟩ := h.trace
  rw [hevents, htrace, List.nil_append]
  rw [hmachine.frame] at hbalanced
  by_cases hlevel : 3 ≤ machine.level
  · exact hbalanced.nested hlevel
  · rw [hbalanced.silent (by omega)]
    exact .nil

theorem start_resting (level : Int) : Resting (Session.start level).machine :=
  ⟨⟨{}, rfl⟩, rfl⟩

theorem step_rests (step : Session.Step) {session : Session} (h : Resting session.machine) :
    Resting (session.step step).2.machine ∧
      Nested 0 (brackets (session.step step).1.trace) := by
  have hquiet : Resting session.quiet.machine := ⟨h.arena, h.frame⟩
  have hdisciplined := hquiet.disciplined
  cases step with
  | run source => exact (run_keeps source hdisciplined).rests hquiet rfl
  | fresh source =>
      -- The answer tells of the session that is dropped, and the session itself stays.
      have hstart := start_resting 0
      exact ⟨hquiet, ((run_keeps source hstart.disciplined).rests hstart rfl).2⟩
  | list source => exact (list_keeps source session.quiet).rests hquiet rfl
  | force source =>
      let reported := session.quiet.reporting (Program.ofSource source).diagnostics
      have hreported : Disciplined reported.machine := hdisciplined
      exact (interpret_keeps _ hreported).rests hquiet rfl
  | interpret statements => exact (interpret_keeps statements hdisciplined).rests hquiet rfl
  | evaluate node => exact (evaluate_keeps node hdisciplined).rests hquiet rfl

/-! ## On the way through a session -/

inductive AtStep (session : Session) : Session.Step → Machine → Prop
  | run {source moment} :
      (Program.ofSource source).diagnostics = [] →
      AtStmts (Program.ofSource source).statements session.quiet.machine moment →
      AtStep session (.run source) moment
  | fresh {source moment} :
      (Program.ofSource source).diagnostics = [] →
      AtStmts (Program.ofSource source).statements (Session.start 0).machine moment →
      AtStep session (.fresh source) moment
  | force {source moment} :
      AtStmts (Program.ofSource source).statements session.quiet.machine moment →
      AtStep session (.force source) moment
  | interpret {statements moment} :
      AtStmts statements session.quiet.machine moment →
      AtStep session (.interpret statements) moment
  | evaluate {node moment} :
      AtExpr node session.quiet.machine moment → AtStep session (.evaluate node) moment

inductive AtSteps : Session → List Session.Step → Machine → Prop
  | first {session next rest moment} :
      AtStep session next moment → AtSteps session (next :: rest) moment
  | next {session first rest moment} :
      AtSteps (session.step first).2 rest moment → AtSteps session (first :: rest) moment

/-- Disciplined, and inside as many brackets of the trace as there are frames beside the global. -/
structure Nesting (moment : Machine) : Prop where
  disciplined : Disciplined moment
  opens : 3 ≤ moment.level → Opens 0 (brackets moment.trace) moment.frame

theorem Within.nesting {machine moment : Machine} (h : Within machine moment)
    (hmachine : Resting machine) (htrace : machine.trace = []) : Nesting moment := by
  obtain ⟨events, hevents, hopens⟩ := h.trace
  refine ⟨h.disciplined, ?_⟩
  rw [hmachine.frame, ← h.level] at hopens
  rw [hevents, htrace, List.nil_append]
  exact hopens

theorem AtStep.nesting {session : Session} {step : Session.Step} {moment : Machine}
    (h : AtStep session step moment) (hsession : Resting session.machine) : Nesting moment := by
  have hquiet : Resting session.quiet.machine := ⟨hsession.arena, hsession.frame⟩
  have hstart := start_resting 0
  cases h with
  | run _ h => exact (h.within hquiet.disciplined).nesting hquiet rfl
  | fresh _ h => exact (h.within hstart.disciplined).nesting hstart rfl
  | force h => exact (h.within hquiet.disciplined).nesting hquiet rfl
  | interpret h => exact (h.within hquiet.disciplined).nesting hquiet rfl
  | evaluate h => exact (h.within hquiet.disciplined).nesting hquiet rfl

theorem AtSteps.nesting {session : Session} {steps : List Session.Step} {moment : Machine}
    (h : AtSteps session steps moment) (hsession : Resting session.machine) : Nesting moment := by
  induction h with
  | first h => exact h.nesting hsession
  | next _ ih => exact ih (step_rests _ hsession).1

theorem steps_rest (steps : List Session.Step) {session : Session}
    (h : Resting session.machine) :
    ∀ taken ∈ session.steps steps,
      Resting taken.2.machine ∧ Nested 0 (brackets taken.1.trace) := by
  induction steps generalizing session with
  | nil =>
      intro taken hmem
      cases hmem
  | cons next rest ih =>
      intro taken hmem
      have hnext := step_rests next h
      cases hmem with
      | head => exact hnext
      | tail _ hmem => exact ih hnext.1 taken hmem

/--
In a session the machine is disciplined wherever a statement or an expression
starts or ends, and rests after every step.  The frames traced in a step are
properly nested brackets, and each names the depth that it opens or closes.
-/
theorem session_keeps_frames (level : Int) (steps : List Session.Step) :
    (∀ moment, AtSteps (Session.start level) steps moment → Nesting moment) ∧
      ∀ taken ∈ (Session.start level).steps steps,
        Resting taken.2.machine ∧ Nested 0 (brackets taken.1.trace) :=
  ⟨fun _ h => h.nesting (start_resting level), steps_rest steps (start_resting level)⟩

end LoxLang.Frames

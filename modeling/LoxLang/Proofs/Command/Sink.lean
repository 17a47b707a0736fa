import LoxLang.Command.Runner

/-!
# What the listener hears

A session with a listener does what it does without.  The listener hears what the report
collects: in a step that starts by clearing the report, just what the report holds after it.
-/

namespace LoxLang

namespace Report

def unheard (report : Report) : Report :=
  { held := report.held }

theorem unheard_addAll (report : Report) (diagnostics : List Diagnostic) :
    (report.addAll diagnostics).unheard = report.unheard.addAll diagnostics := by
  induction diagnostics generalizing report with
  | nil => rfl
  | cons d rest ih => exact ih (report.add d)

/-- All that the later report holds was passed on to the listener since the earlier one. -/
structure PassesOn (earlier report : Report) : Prop where
  listens : report.listens = true
  heard : report.heard = earlier.heard ++ report.held

variable {earlier report : Report}

theorem passesOn_clear (h : report.listens = true) : PassesOn report report.clear :=
  ⟨h, (List.append_nil _).symm⟩

theorem PassesOn.add (h : PassesOn earlier report) (d : Diagnostic) :
    PassesOn earlier (report.add d) := by
  refine ⟨h.listens, ?_⟩
  simp only [Report.add, h.listens, if_true, h.heard, List.append_assoc]

theorem PassesOn.addAll (h : PassesOn earlier report) (diagnostics : List Diagnostic) :
    PassesOn earlier (report.addAll diagnostics) := by
  induction diagnostics generalizing report with
  | nil => exact h
  | cons d rest ih => exact ih (h.add d)

theorem PassesOn.heardSince (h : PassesOn earlier report) :
    earlier.heardSince report = report.held := by
  rw [Report.heardSince, h.heard, List.drop_left]

end Report

namespace Session

/-! ## Without the listener -/

def unheard (session : Session) : Session :=
  { session with report := session.report.unheard }

theorem unheard_reporting (session : Session) (diagnostics : List Diagnostic) :
    (session.reporting diagnostics).unheard = session.unheard.reporting diagnostics := by
  simp only [unheard, reporting, Report.unheard_addAll]

@[simp] theorem held_unheard (session : Session) :
    session.unheard.report.held = session.report.held :=
  rfl

theorem hadError_unheard (session : Session) :
    session.unheard.report.hadError = session.report.hadError :=
  rfl

@[simp] theorem exitCode_unheard (session : Session) :
    session.unheard.report.exitCode = session.report.exitCode :=
  rfl

theorem interpret_unheard (session : Session) (statements : List Stmt) :
    session.unheard.interpret statements =
      ((session.interpret statements).1, (session.interpret statements).2.unheard) := by
  unfold interpret
  dsimp only [unheard]
  split <;> rfl

theorem run_unheard (session : Session) (source : String) :
    session.unheard.run source = ((session.run source).1, (session.run source).2.unheard) := by
  have hreported : session.unheard.clear.reporting (Program.ofSource source).diagnostics =
      (session.clear.reporting (Program.ofSource source).diagnostics).unheard :=
    (unheard_reporting session.clear _).symm
  unfold run
  dsimp only
  rw [hreported, interpret_unheard, hadError_unheard]
  split <;> rfl

theorem list_unheard (session : Session) (source : String) :
    session.unheard.list source = ((session.list source).1, (session.list source).2.unheard) := by
  have hreported : session.unheard.clear.reporting (LeadingExpr.ofSource source).diagnostics =
      (session.clear.reporting (LeadingExpr.ofSource source).diagnostics).unheard :=
    (unheard_reporting session.clear _).symm
  unfold list
  dsimp only
  rw [hreported, hadError_unheard]
  cases (LeadingExpr.ofSource source).node with
  | none => rfl
  | some node =>
      dsimp only
      split
      · rfl
      · cases node.listing <;> rfl

theorem evaluate_unheard (session : Session) (node : Expr) :
    session.unheard.evaluate node =
      ((session.evaluate node).1, (session.evaluate node).2.unheard) := by
  unfold evaluate
  dsimp only [unheard]
  split <;> rfl

/-- A step does the same without the listener. -/
theorem step_unheard (session : Session) (next : Step) :
    session.unheard.step next = ((session.step next).1, (session.step next).2.unheard) := by
  have hquiet : session.unheard.quiet = session.quiet.unheard := rfl
  cases next with
  | run source =>
      simp only [step, hquiet, run_unheard]
      rfl
  | fresh source => rfl
  | list source =>
      simp only [step, hquiet, list_unheard]
      rfl
  | force source =>
      have hreported := unheard_reporting session.quiet (Program.ofSource source).diagnostics
      simp only [step, force, hquiet, ← hreported, interpret_unheard]
      rfl
  | interpret statements =>
      simp only [step, hquiet, interpret_unheard]
      rfl
  | evaluate node =>
      simp only [step, hquiet, evaluate_unheard]
      rfl

theorem passesOn_reporting {session : Session} (h : session.report.listens = true)
    (diagnostics : List Diagnostic) :
    session.report.PassesOn (session.clear.reporting diagnostics).report :=
  (Report.passesOn_clear h).addAll diagnostics

theorem passesOn_interpret {earlier : Report} {session : Session}
    (h : earlier.PassesOn session.report) (statements : List Stmt) :
    earlier.PassesOn (session.interpret statements).2.report := by
  unfold interpret
  split
  · exact h
  · exact h.add _
  · exact h

theorem passesOn_run {session : Session} (h : session.report.listens = true) (source : String) :
    session.report.PassesOn (session.run source).2.report := by
  have hreported := passesOn_reporting h (Program.ofSource source).diagnostics
  unfold run
  dsimp only
  split
  · exact hreported
  · exact passesOn_interpret hreported _

theorem passesOn_list {session : Session} (h : session.report.listens = true) (source : String) :
    session.report.PassesOn (session.list source).2.report := by
  have hreported := passesOn_reporting h (LeadingExpr.ofSource source).diagnostics
  unfold list
  dsimp only
  repeat' split
  all_goals exact hreported

end Session

namespace Runner.Console

theorem passesOn_stepFor {console : Console} (h : console.session.report.listens = true)
    (source : String) :
    console.session.report.PassesOn (console.session.step (console.stepFor source)).2.report := by
  unfold stepFor
  split
  · exact @Session.passesOn_list console.session.quiet h source
  · exact @Session.passesOn_run console.session.quiet h source

theorem enter_eq {console : Console} (h : console.session.report.listens = true)
    (htarget : console.target ≠ .errorOutput) (source : String) :
    let taken := console.session.step (console.stepFor source)
    console.enter source =
      { console with
        session := taken.2
        output := console.output ++ Lines.join taken.1.output
        errors := console.errors ++ Lines.join (taken.2.report.held.map Diagnostic.text)
        trace := console.trace ++ Lines.join (taken.1.trace.map Event.text) } := by
  intro taken
  have hheard := (passesOn_stepFor h source).heardSince
  simp only [enter, hheard, if_neg htarget, String.append_empty, taken]

end Runner.Console

end LoxLang

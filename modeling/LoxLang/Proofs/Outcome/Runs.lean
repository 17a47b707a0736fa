import LoxLang.Proofs.Outcome.NoFaults

/-!
# What running a source comes to

A source is rejected for its mistakes, or its program is stopped by one of its own,
or it is completed.  The report tells which, and nothing that earlier steps left in
it has a part in that.
-/

namespace LoxLang

open Scoping Frames

/-! ## The two ways of a run -/

namespace Session

def ended (session : Session) (machine : Machine) : Option RuntimeError → Session
  | none => { session with machine }
  | some error =>
      { machine := machine.record (.runtimeError error)
        report := session.report.add error.diagnostic }

theorem interpret_of_finish {statements : List Stmt} {session : Session}
    {error : Option RuntimeError} {machine : Machine}
    (h : Stmt.executeAll statements session.machine = finish error machine) :
    session.interpret statements = (.ok error.isNone, session.ended machine error) := by
  rw [interpret, h]
  cases error <;> rfl

theorem step_run_of_mistaken {source : String} (h : (Program.ofSource source).diagnostics ≠ [])
    (session : Session) :
    session.step (.run source) = answer (.ok .nothing)
      (session.quiet.clear.reporting (Program.ofSource source).diagnostics) := by
  rw [step_run, run_of_mistaken h]
  rfl

theorem step_run_of_clean {source : String} (h : (Program.ofSource source).diagnostics = [])
    {session : Session} {error : Option RuntimeError} {machine : Machine}
    (hexecute : Stmt.executeAll (Program.ofSource source).statements session.quiet.machine =
      finish error machine) :
    session.step (.run source) =
      answer (.ok .nothing) (session.quiet.clear.ended machine error) := by
  have hcleared : Stmt.executeAll (Program.ofSource source).statements
      session.quiet.clear.machine = finish error machine := hexecute
  rw [step_run, run_of_clean h, interpret_of_finish hcleared]
  rfl

end Session

/-! ## Outcomes -/

section

variable (session : Session) (source : String) (taken : Session.Answer × Session)

structure Rejected : Prop where
  mistaken : (Program.ofSource source).diagnostics ≠ []
  held : taken.2.report.held = (scan source).problems ++ (scan source).text.program.diagnostics
  lexical : ∀ d ∈ (scan source).problems, d.kind = "lexical"
  syntactic : ∀ d ∈ (scan source).text.program.diagnostics, d.kind = "syntax"
  output : taken.1.output = []
  trace : taken.1.trace = []
  arena : taken.2.machine.arena = session.machine.arena
  frame : taken.2.machine.frame = session.machine.frame
  exitCode : taken.2.report.exitCode = 65

structure Stopped : Prop where
  clean : (Program.ofSource source).diagnostics = []
  stops : ∃ error machine,
    Stmt.executeAll (Program.ofSource source).statements session.quiet.machine =
        .error (.runtime error) machine ∧
      taken.2.machine = machine.record (.runtimeError error) ∧
      taken.2.report.held = [error.diagnostic]
  kind : ∀ d ∈ taken.2.report.held, d.kind = "runtime"
  exitCode : taken.2.report.exitCode = 70

structure Completed : Prop where
  clean : (Program.ofSource source).diagnostics = []
  runs : Stmt.executeAll (Program.ofSource source).statements session.quiet.machine =
    .ok () taken.2.machine
  held : taken.2.report.held = []
  exitCode : taken.2.report.exitCode = 0

end

inductive RunOutcome where
  | rejected | stopped | completed
  deriving DecidableEq, Repr

namespace RunOutcome

def Holds : RunOutcome → Session → String → Session.Answer × Session → Prop
  | rejected => Rejected
  | stopped => Stopped
  | completed => Completed

def exitCode : RunOutcome → Nat
  | rejected => 65
  | stopped => 70
  | completed => 0

theorem exitCode_injective {outcome outcome' : RunOutcome}
    (h : outcome.exitCode = outcome'.exitCode) : outcome = outcome' := by
  cases outcome <;> cases outcome' <;> first | rfl | cases h

variable {session : Session} {source : String} {taken : Session.Answer × Session}

theorem Holds.exitCode {outcome : RunOutcome} (h : outcome.Holds session source taken) :
    taken.2.report.exitCode = outcome.exitCode := by
  cases outcome with
  | rejected => exact Rejected.exitCode h
  | stopped => exact Stopped.exitCode h
  | completed => exact Completed.exitCode h

theorem Holds.unique {outcome outcome' : RunOutcome} (h : outcome.Holds session source taken)
    (h' : outcome'.Holds session source taken) : outcome = outcome' :=
  exitCode_injective (h.exitCode.symm.trans h'.exitCode)

def ofError : Option RuntimeError → RunOutcome
  | none => completed
  | some _ => stopped

end RunOutcome

/-! ## Every run has an outcome -/

theorem rejected_of_mistaken {source : String} (h : (Program.ofSource source).diagnostics ≠ [])
    (session : Session) : Rejected session source (session.step (.run source)) := by
  have hgate := (session.quiet.hadError_program source).mpr h
  rw [Session.step_run_of_mistaken h]
  exact {
    mistaken := h
    held := Report.held_addAll session.report.clear _
    lexical := fun _ hmem => kind_of_mem_problems hmem
    syntactic := fun _ hmem => TokenText.kind_of_mem_diagnostics hmem
    output := rfl
    trace := rfl
    arena := rfl
    frame := rfl
    exitCode := if_pos hgate }

theorem holds_of_clean {source : String} (h : (Program.ofSource source).diagnostics = [])
    {session : Session} {error : Option RuntimeError} {machine : Machine}
    (hexecute : Stmt.executeAll (Program.ofSource source).statements session.quiet.machine =
      finish error machine) :
    (RunOutcome.ofError error).Holds session source (session.step (.run source)) := by
  rw [Session.step_run_of_clean h hexecute]
  cases error with
  | none => exact { clean := h, runs := hexecute, held := rfl, exitCode := rfl }
  | some error =>
      exact {
        clean := h
        stops := ⟨error, machine, hexecute, rfl, rfl⟩
        kind := fun d hmem => by rw [List.mem_singleton.mp hmem]; rfl
        exitCode := rfl }

/--
Running a source from between the steps of a session rejects it, stops or completes,
and only one of these.  Had another report been left by the earlier steps, the run
would have had the same outcome, answer, machine and diagnostics.
-/
theorem run_outcome {session : Session} (h : Resting session.machine) (source : String) :
    ∃ outcome : RunOutcome,
      outcome.Holds session source (session.step (.run source)) ∧
      (∀ other : RunOutcome,
        other.Holds session source (session.step (.run source)) → other = outcome) ∧
      (session.step (.run source)).1.result = .ok .nothing ∧
      ∀ report, let other : Session := { session with report }
        outcome.Holds other source (other.step (.run source)) ∧
        (other.step (.run source)).1 = (session.step (.run source)).1 ∧
        (other.step (.run source)).2.machine = (session.step (.run source)).2.machine ∧
        (other.step (.run source)).2.report.held =
          (session.step (.run source)).2.report.held := by
  by_cases hclean : (Program.ofSource source).diagnostics = []
  · have hwell := Program.wellFormed source
    have hquiet : Resting session.quiet.machine := ⟨h.arena, h.frame⟩
    obtain ⟨error, machine, hexecute, -⟩ := hwell.executeAll hquiet
    have hholds := holds_of_clean hclean hexecute
    refine ⟨.ofError error, hholds, fun other hother => hother.unique hholds, ?_, ?_⟩
    · rw [Session.step_run_of_clean hclean hexecute]
      rfl
    · intro report other
      have hother : Stmt.executeAll (Program.ofSource source).statements other.quiet.machine =
          finish error machine := hexecute
      refine ⟨holds_of_clean hclean hother, ?_⟩
      rw [Session.step_run_of_clean hclean hexecute, Session.step_run_of_clean hclean hother]
      cases error <;> exact ⟨rfl, rfl, rfl⟩
  · have hholds : RunOutcome.Holds .rejected session source (session.step (.run source)) :=
      rejected_of_mistaken hclean session
    refine ⟨.rejected, hholds, fun other hother => hother.unique hholds, ?_, ?_⟩
    · rw [Session.step_run_of_mistaken hclean]
      rfl
    · intro report other
      have hother := rejected_of_mistaken hclean other
      refine ⟨hother, ?_, ?_, hother.held.trans hholds.held.symm⟩ <;>
        rw [Session.step_run_of_mistaken hclean, Session.step_run_of_mistaken hclean] <;> rfl

def staleSession : Session where
  machine := { arena := ⟨[{ values := ⟨[("a", .string "text")]⟩ }]⟩, level := 3 }
  report := { held := [.lexical 9 "Unexpected character."] }

theorem run_outcome_stale :
    Resting staleSession.machine ∧
      RunOutcome.Holds .stopped staleSession "print a;\nprint -a;"
        (staleSession.step (.run "print a;\nprint -a;")) ∧
      (staleSession.step (.run "print a;\nprint -a;")).1.output = ["text"] ∧
      (staleSession.step (.run "print a;\nprint -a;")).2.report.held =
        [.runtime 2 "Operand must be a number."] := by
  have hresting : Resting staleSession.machine := ⟨⟨_, rfl⟩, rfl⟩
  have hscan : scan "print a;\nprint -a;" =
      ⟨⟨[.bare .wordPrint "print" 1, .bare .identifier "a" 1, .bare .semicolon ";" 1,
        .bare .wordPrint "print" 2, .bare .minus "-" 2, .bare .identifier "a" 2,
        .bare .semicolon ";" 2], .ending 2⟩, []⟩ := by
    with_unfolding_all rfl
  have hprogram : Program.ofSource "print a;\nprint -a;" =
      ⟨[.print (.reference ⟨.identifier, "a", .nil, 1⟩),
        .print (.unary ⟨.minus, "-", .nil, 2⟩ (.reference ⟨.identifier, "a", .nil, 2⟩))], []⟩ := by
    rw [Program.ofSource, hscan]
    cbv
  have hclean : (Program.ofSource "print a;\nprint -a;").diagnostics = [] := by
    rw [hprogram]
  obtain ⟨machine, hexecute, houtput⟩ : ∃ machine,
      Stmt.executeAll (Program.ofSource "print a;\nprint -a;").statements
          staleSession.quiet.machine =
        finish (some ⟨.operandNotNumber, ⟨.minus, "-", .nil, 2⟩⟩) machine ∧
        machine.output = ["text"] := by
    rw [hprogram]
    exact ⟨_, rfl, rfl⟩
  obtain ⟨outcome, hholds, -⟩ := run_outcome hresting "print a;\nprint -a;"
  obtain rfl : outcome = .stopped := hholds.unique (holds_of_clean hclean hexecute)
  refine ⟨hresting, hholds, ?_, ?_⟩ <;> rw [Session.step_run_of_clean hclean hexecute]
  · exact (Machine.output_record _ _).trans houtput
  · rfl

end LoxLang

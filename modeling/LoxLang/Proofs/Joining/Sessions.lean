import LoxLang.Proofs.Joining.Programs
import LoxLang.Proofs.Lockstep.Runs
import LoxLang.Proofs.Outcome.Runs

/-!
# Sources in turn and joined

Running sources one after the other in a session does what running them as one
source does, with newlines between them.  An error that stops the one stops the
other, and is about a line as much further down as there are lines before its source.
-/

namespace LoxLang

open Scoping Frames

/-! ## In turn -/

def textBefore (sources : List String) : List Char :=
  sources.flatMap fun source => source.toList ++ ['\n']

/--
The sources run one after the other up to the first that stops, which is told with
the line where it is when they are joined.
-/
inductive InTurn : Scopes → List String → Scopes → List String → Option Diagnostic → Prop
  | done {scopes} : InTurn scopes [] scopes [] none
  | next {scopes source rest scopes₁ scopes₂ lines lines' stop} :
      Executes scopes (Program.ofSource source).statements scopes₁ lines none →
      InTurn scopes₁ rest scopes₂ lines' stop →
      InTurn scopes (source :: rest) scopes₂ (lines ++ lines')
        (stop.map (Diagnostic.later (Lexeme.newlines source.toList + 1)))
  | stops {scopes source rest scopes₁ lines error} :
      Executes scopes (Program.ofSource source).statements scopes₁ lines (some error) →
      InTurn scopes (source :: rest) scopes₁ lines (some error.diagnostic)

theorem Diagnostic.later_zero (d : Diagnostic) : d.later 0 = d := by
  simp [later]

theorem Diagnostic.later_later (lines lines' : Nat) (d : Diagnostic) :
    (d.later lines).later lines' = d.later (lines' + lines) := by
  simp [later, Int.add_assoc, Int.add_comm]

theorem InTurn.append_of_stops {scopes scopes₁ scopes₂ : Scopes} {sources : List String}
    {lines lines' : List String} {stop : Option Diagnostic} {source : String}
    {error : RuntimeError} (h : InTurn scopes sources scopes₁ lines stop) (hstop : stop = none)
    (hstops : Executes scopes₁ (Program.ofSource source).statements scopes₂ lines' (some error))
    (rest : List String) :
    InTurn scopes (sources ++ source :: rest) scopes₂ (lines ++ lines')
      (some (error.diagnostic.later (Lexeme.newlines (textBefore sources)))) := by
  induction h with
  | done =>
      have hzero : error.diagnostic.later (Lexeme.newlines (textBefore [])) = error.diagnostic :=
        Diagnostic.later_zero _
      rw [hzero]
      exact .stops hstops
  | @next _ first others _ _ _ _ _ hrun _ ih =>
      -- The first source moves the others by its own lines and the newline behind it.
      have hlater : error.diagnostic.later (Lexeme.newlines (textBefore (first :: others))) =
          (error.diagnostic.later (Lexeme.newlines (textBefore others))).later
            (Lexeme.newlines first.toList + 1) := by
        rw [Diagnostic.later_later]
        congr 1
        simp [textBefore, Lexeme.newlines]
        omega
      rw [hlater, List.append_assoc]
      exact .next hrun (ih (Option.map_eq_none_iff.mp hstop) hstops)
  | stops => cases hstop

/-! ## Joined -/

theorem statements_joined_nil :
    (Program.ofSource ("\n".intercalate [])).statements = [] := by
  cbv

theorem joined_cons {first : String} {rest : List String}
    (hfirst : (Program.ofSource first).diagnostics = [])
    (hrest : (Program.ofSource ("\n".intercalate rest)).diagnostics = []) :
    (Program.ofSource ("\n".intercalate (first :: rest))).diagnostics = [] ∧
      ∃ nodes, Stmt.AllAlike (Shifted (Lexeme.newlines first.toList + 1))
          (Program.ofSource ("\n".intercalate rest)).statements nodes ∧
        (Program.ofSource ("\n".intercalate (first :: rest))).statements =
          (Program.ofSource first).statements ++ nodes := by
  cases rest with
  | nil =>
      rw [String.intercalate_singleton, statements_joined_nil]
      exact ⟨hfirst, [], .nil, (List.append_nil _).symm⟩
  | cons second rest =>
      apply Program.newline hfirst hrest
      simp [String.intercalate_cons_cons, String.toList_append]

theorem joined_clean {sources : List String}
    (h : ∀ source ∈ sources, (Program.ofSource source).diagnostics = []) :
    (Program.ofSource ("\n".intercalate sources)).diagnostics = [] := by
  induction sources with
  | nil => cbv
  | cons first rest ih =>
      obtain ⟨hfirst, hrest⟩ := List.forall_mem_cons.mp h
      exact (joined_cons hfirst (ih hrest)).1

theorem RuntimeError.Alike.diagnostic {lines : Nat} {error error' : RuntimeError}
    (h : error.Alike (Shifted lines) error') :
    error'.diagnostic = error.diagnostic.later lines := by
  have hcause := h.cause
  have htoken : error'.token = error.token.later lines := h.token
  simp only [RuntimeError.diagnostic, RuntimeError.message, hcause, htoken, Token.later,
    Diagnostic.later, Diagnostic.runtime]

theorem diagnostic_of_rel {lines : Nat} {error error' : Option RuntimeError}
    (h : Option.Rel (RuntimeError.Alike (Shifted lines)) error error') :
    error'.map RuntimeError.diagnostic =
      (error.map RuntimeError.diagnostic).map (Diagnostic.later lines) := by
  cases h with
  | none => rfl
  | some h => exact congrArg some h.diagnostic

theorem InTurn.joined {scopes scopes' : Scopes} {sources : List String} {lines : List String}
    {stop : Option Diagnostic} (h : InTurn scopes sources scopes' lines stop)
    (hclean : ∀ source ∈ sources, (Program.ofSource source).diagnostics = []) :
    ∃ error, error.map RuntimeError.diagnostic = stop ∧
      Executes scopes (Program.ofSource ("\n".intercalate sources)).statements scopes' lines
        error := by
  induction h with
  | done =>
      rw [statements_joined_nil]
      exact ⟨none, rfl, .done⟩
  | next hrun _ ih =>
      obtain ⟨hfirst, hrest⟩ := List.forall_mem_cons.mp hclean
      obtain ⟨-, nodes, halike, hstatements⟩ := joined_cons hfirst (joined_clean hrest)
      obtain ⟨error, hstop, hruns⟩ := ih hrest
      obtain ⟨error', herror, hruns'⟩ := hruns.alike Shifted.same halike
      rw [← hstop, hstatements]
      exact ⟨error', diagnostic_of_rel herror, hrun.append hruns'⟩
  | stops hrun =>
      obtain ⟨hfirst, hrest⟩ := List.forall_mem_cons.mp hclean
      obtain ⟨-, nodes, -, hstatements⟩ := joined_cons hfirst (joined_clean hrest)
      rw [hstatements]
      exact ⟨_, rfl, hrun.append_of_stops nodes⟩

theorem exists_joined_toList (sources : List String) (source : String) (rest : List String) :
    ∃ others, ("\n".intercalate (sources ++ source :: rest)).toList =
      textBefore sources ++ source.toList ++ others := by
  induction sources with
  | nil =>
      cases rest with
      | nil => exact ⟨[], by simp [textBefore]⟩
      | cons next rest => exact ⟨_, by simp [textBefore, String.intercalate_cons_cons]; rfl⟩
  | cons first others ih =>
      obtain ⟨back, hback⟩ := ih
      refine ⟨back, ?_⟩
      cases others with
      | nil =>
          simp only [List.nil_append] at hback
          simp [textBefore, String.intercalate_cons_cons, hback]
      | cons second others =>
          simp only [List.cons_append] at hback ⊢
          simp [textBefore, String.intercalate_cons_cons, hback]

/-! ## Sessions -/

section

variable {session : Session} {globals : Bindings}

theorem step_run_follows (h : Represents ⟨globals, []⟩ session.machine) {source : String}
    (hclean : (Program.ofSource source).diagnostics = []) :
    ∃ globals' error,
      Executes ⟨globals, []⟩ (Program.ofSource source).statements ⟨globals', []⟩
        (session.step (.run source)).1.output error ∧
      Represents ⟨globals', []⟩ (session.step (.run source)).2.machine ∧
      (session.step (.run source)).2.report.held =
        (error.map RuntimeError.diagnostic).toList := by
  have hwell := Program.wellFormed source
  have hquiet : Represents ⟨globals, []⟩ session.quiet.machine := ⟨h.arena, h.frame⟩
  obtain ⟨globals', lines, error, machine, hrun, hexecute, hrep, houtput⟩ := hwell.exists_run hquiet
  have houtput : machine.output = lines := houtput
  rw [Session.step_run_of_clean hclean hexecute]
  refine ⟨globals', error, ?_, ?_, ?_⟩
  · cases error with
    | none =>
        rw [← houtput] at hrun
        exact hrun
    | some error =>
        rw [← houtput, ← Machine.output_record (.runtimeError error)] at hrun
        exact hrun
  · cases error with
    | none => exact hrep
    | some error => exact hrep.record _
  · cases error <;> rfl

theorem hadRuntimeError_of_held {report : Report} {error : Option RuntimeError}
    (h : report.held = (error.map RuntimeError.diagnostic).toList) :
    report.hadRuntimeError = error.isSome := by
  rw [Report.hadRuntimeError, h]
  cases error <;> rfl

theorem steps_follow {sources : List String} (h : Represents ⟨globals, []⟩ session.machine)
    (hclean : ∀ source ∈ sources, (Program.ofSource source).diagnostics = [])
    (hruns : ∀ taken ∈ session.steps (sources.map .run),
      taken.2.report.hadRuntimeError = false) :
    ∃ globals',
      InTurn ⟨globals, []⟩ sources ⟨globals', []⟩
        ((session.steps (sources.map .run)).flatMap fun taken => taken.1.output) none ∧
      Represents ⟨globals', []⟩ (session.after (sources.map .run)).machine := by
  induction sources generalizing session globals with
  | nil => exact ⟨globals, .done, h⟩
  | cons source rest ih =>
      obtain ⟨hfirst, hrest⟩ := List.forall_mem_cons.mp hclean
      obtain ⟨hquiet, hothers⟩ := List.forall_mem_cons.mp hruns
      obtain ⟨globals₁, error, hrun, hrep, hheld⟩ := step_run_follows h hfirst
      obtain ⟨globals', hturn, hrep'⟩ := ih hrep hrest hothers
      cases error with
      | none => exact ⟨globals', .next hrun hturn, hrep'⟩
      | some error =>
          rw [hadRuntimeError_of_held hheld] at hquiet
          cases hquiet

theorem joined_follows {sources : List String} (h : Represents ⟨globals, []⟩ session.machine)
    (hclean : ∀ source ∈ sources, (Program.ofSource source).diagnostics = [])
    {globals' : Bindings} {lines : List String} {stop : Option Diagnostic}
    (hturn : InTurn ⟨globals, []⟩ sources ⟨globals', []⟩ lines stop) :
    (session.step (.run ("\n".intercalate sources))).1.output = lines ∧
      Represents ⟨globals', []⟩ (session.step (.run ("\n".intercalate sources))).2.machine ∧
      (session.step (.run ("\n".intercalate sources))).2.report.held = stop.toList := by
  obtain ⟨error, rfl, hjoined⟩ := hturn.joined hclean
  obtain ⟨globals'', error', hrun, hrep, hheld⟩ := step_run_follows h (joined_clean hclean)
  obtain ⟨hscopes, rfl, rfl⟩ := hrun.unique hjoined
  cases hscopes
  exact ⟨rfl, hrep, hheld⟩

end

/--
Runs of sources without mistakes in turn, and the run of these sources joined by
newlines.  If no run in turn is stopped, the joined run prints what they print,
leaves the frame that they leave and reports nothing.  If one is stopped, the joined
run is stopped there, with the same message about the line that the source has in
the joined text.
-/
theorem joined_runs_agree {session : Session} (h : Resting session.machine)
    {sources : List String}
    (hclean : ∀ source ∈ sources, (Program.ofSource source).diagnostics = []) :
    let joined := session.step (.run ("\n".intercalate sources))
    ((∀ taken ∈ session.steps (sources.map .run), taken.2.report.hadRuntimeError = false) →
      joined.1.output =
        ((session.steps (sources.map .run)).flatMap fun taken => taken.1.output) ∧
      joined.2.machine.arena = (session.after (sources.map .run)).machine.arena ∧
      joined.2.machine.frame = (session.after (sources.map .run)).machine.frame ∧
      joined.2.report.held = []) ∧
    ∀ earlier source later, sources = earlier ++ source :: later →
      let stopped := (session.after (earlier.map .run)).step (.run source)
      session.steps (sources.map .run) =
        session.steps (earlier.map .run) ++ stopped :: stopped.2.steps (later.map .run) ∧
      ((∀ taken ∈ session.steps (earlier.map .run),
          taken.2.report.hadRuntimeError = false) →
        stopped.2.report.hadRuntimeError = true →
        joined.1.output =
          ((session.steps (earlier.map .run)).flatMap fun taken => taken.1.output) ++
            stopped.1.output ∧
        joined.2.machine.arena = stopped.2.machine.arena ∧
        joined.2.machine.frame = stopped.2.machine.frame ∧
        (∃ rest, ("\n".intercalate sources).toList =
          textBefore earlier ++ source.toList ++ rest) ∧
        ∃ d, stopped.2.report.held = [d] ∧
          joined.2.report.held =
            [{ d with line := d.line + Lexeme.newlines (textBefore earlier) }]) := by
  obtain ⟨globals, hrep⟩ := h.represents
  intro joined
  constructor
  · intro hruns
    obtain ⟨globals', hturn, hafter⟩ := steps_follow hrep hclean hruns
    obtain ⟨houtput, hjoined, hheld⟩ := joined_follows hrep hclean hturn
    exact ⟨houtput, hjoined.arena.trans hafter.arena.symm,
      hjoined.frame.trans hafter.frame.symm, hheld⟩
  · rintro earlier source later rfl stopped
    refine ⟨?_, fun hruns hstopped => ?_⟩
    · rw [List.map_append, Session.steps_append]
      rfl
    obtain ⟨hearlier, hsource⟩ := List.forall_mem_append.mp hclean
    obtain ⟨globals₁, hturn, hafter⟩ := steps_follow hrep hearlier hruns
    obtain ⟨globals', error, hrun, hrep', hheld⟩ :=
      step_run_follows hafter (hsource source (.head _))
    have hsome : error.isSome = true := (hadRuntimeError_of_held hheld).symm.trans hstopped
    obtain ⟨error, rfl⟩ := Option.isSome_iff_exists.mp hsome
    obtain ⟨houtput, hjoined, hheld'⟩ :=
      joined_follows hrep hclean (hturn.append_of_stops rfl hrun later)
    exact ⟨houtput, hjoined.arena.trans hrep'.arena.symm,
      hjoined.frame.trans hrep'.frame.symm, exists_joined_toList earlier source later,
      error.diagnostic, hheld, hheld'⟩

/-- The second of these sources is stopped, where it is on line 3 of the joined text. -/
theorem joined_runs_agree_stopped :
    let sources := ["print a; // \"", "\nprint -a;", "print nil;"]
    let joined := staleSession.step (.run ("\n".intercalate sources))
    Resting staleSession.machine ∧
      (∀ source ∈ sources, (Program.ofSource source).diagnostics = []) ∧
      joined.1.output = ["text"] ∧
      joined.2.report.held = [.runtime 3 "Operand must be a number."] := by
  intro sources joined
  have hresting : Resting staleSession.machine := ⟨⟨_, rfl⟩, rfl⟩
  have hclean : ∀ source ∈ sources, (Program.ofSource source).diagnostics = [] := by
    simp only [sources, List.forall_mem_cons]
    refine ⟨?_, ?_, ?_, List.forall_mem_nil _⟩ <;> cbv
  have hprint : (Program.ofSource "print a; // \"").statements =
      [.print (.reference ⟨.identifier, "a", .nil, 1⟩)] := by
    cbv
  have hnegate : (Program.ofSource "\nprint -a;").statements =
      [.print (.unary ⟨.minus, "-", .nil, 2⟩ (.reference ⟨.identifier, "a", .nil, 2⟩))] := by
    cbv
  let middle : Machine :=
    { staleSession.machine with output := ["text"], trace := [.execute .printStmt] }
  have hfirst : staleSession.step (.run "print a; // \"") =
      Session.answer (.ok .nothing) (staleSession.quiet.clear.ended middle none) :=
    Session.step_run_of_clean (hclean _ (.head _)) (by rw [hprint]; rfl)
  let final : Machine := { staleSession.machine with trace := [.execute .printStmt] }
  have hsecond : (staleSession.quiet.clear.ended middle none).step (.run "\nprint -a;") =
      Session.answer (.ok .nothing) ((staleSession.quiet.clear.ended middle none).quiet.clear.ended
        final (some ⟨.operandNotNumber, ⟨.minus, "-", .nil, 2⟩⟩)) :=
    Session.step_run_of_clean (hclean _ (.tail _ (.head _))) (by rw [hnegate]; rfl)
  obtain ⟨-, hstops⟩ := joined_runs_agree hresting hclean
  obtain ⟨-, hstops⟩ := hstops ["print a; // \""] "\nprint -a;" ["print nil;"] rfl
  simp only [List.map_cons, List.map_nil, Session.steps, Session.after, List.foldl_cons,
    List.foldl_nil, hfirst, Session.answer, hsecond] at hstops
  obtain ⟨houtput, -, -, -, d, hd, hheld⟩ := hstops (by simp; rfl) rfl
  obtain rfl := List.singleton_inj.mp hd
  exact ⟨hresting, hclean, houtput, hheld⟩

end LoxLang

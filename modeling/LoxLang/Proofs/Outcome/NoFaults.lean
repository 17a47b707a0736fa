import LoxLang.Proofs.Frames.Sessions
import LoxLang.Proofs.Scoping.Agreement
import LoxLang.Proofs.Syntax.WellFormed

/-!
# Programs that are read do not fault

A well-formed program comes to its end or is stopped by a mistake of its own:
operands that an operator does not take, or a name that nothing binds.  The machine
of a session stands in the global frame alone between steps, and from there no walk
along the frames and no release of one can fail.
-/

namespace LoxLang

/-- The mistakes a well-formed program can make, by what is said about them. -/
def RuntimeError.Ordinary (error : RuntimeError) : Prop :=
  error.message = "Operand must be a number." ∨ error.message = "Operands must be numbers." ∨
    error.message = "Operands must be two numbers or two strings." ∨
    (error.token.kind = .identifier ∧
      error.message = "Undefined variable '" ++ error.token.lexeme ++ "'.")

theorem Scoping.undefined_ordinary {name : Token} (h : name.kind = .identifier) :
    (undefined name).Ordinary := by
  have hquote : "Undefined variable '" = "Undefined variable " ++ "'" := rfl
  refine .inr (.inr (.inr ⟨h, ?_⟩))
  simp only [RuntimeError.message, undefined, hquote, String.append_assoc]

/-! ## Operators -/

namespace Token

variable {operator : Token} {error : RuntimeError}

theorem applyUnary_ordinary (h : operator.kind ∈ unaryOperators) {operand : Value}
    (herror : operator.applyUnary operand = .error error) : error.Ordinary := by
  have hkind : operator.kind = .bang ∨ operator.kind = .minus := by simpa [unaryOperators] using h
  rcases hkind with hkind | hkind <;> unfold applyUnary at herror <;> rw [hkind] at herror
  · cases herror
  · cases operand <;> cases herror <;> exact .inl rfl

theorem arithmetic_isSome {kind : TokenKind} (h : kind ∈ binaryOperators)
    (hplus : kind ≠ .plus) (hequal : kind ≠ .equalEqual) (hbang : kind ≠ .bangEqual) :
    (arithmetic? kind).isSome := by
  cases kind <;> first | rfl | contradiction

theorem applyBinary_ordinary (h : operator.kind ∈ binaryOperators) {left right : Value}
    (herror : operator.applyBinary left right = .error error) : error.Ordinary := by
  unfold applyBinary at herror
  split at herror
  next =>
    split at herror <;> cases herror
    exact .inr (.inr (.inl rfl))
  next => cases herror
  next => cases herror
  next kind hplus hequal hbang =>
    have hsome := arithmetic_isSome h hplus hequal hbang
    split at herror
    next hnone => simp [hnone] at hsome
    next =>
      split at herror <;> cases herror
      exact .inr (.inl rfl)

end Token

/-! ## Runs by the rules -/

namespace Scoping

theorem Evaluates.ordinary {scopes scopes' : Scopes} {expr : Expr}
    {result : Except RuntimeError Value} {error : RuntimeError}
    (h : Evaluates scopes expr scopes' result) (hwell : expr.WellFormed)
    (hresult : result = .error error) : error.Ordinary := by
  induction h with
  | literal => cases hresult
  | grouping _ ih => exact ih hwell hresult
  | unary _ _ => exact Token.applyUnary_ordinary hwell.1 hresult
  | unaryStops _ ih => exact ih hwell.2 hresult
  | binary _ _ _ _ => exact Token.applyBinary_ordinary hwell.2.1 hresult
  | leftStops _ ih => exact ih hwell.1 hresult
  | rightStops _ _ _ ih => exact ih hwell.2.2 hresult
  | reference _ => cases hresult
  | unbound _ =>
      cases hresult
      exact undefined_ordinary hwell
  | assign _ _ _ => cases hresult
  | assignStops _ ih => exact ih hwell.2 hresult
  | assignUnbound _ _ _ =>
      cases hresult
      exact undefined_ordinary hwell.1

mutual

theorem Performs.ordinary {scopes scopes' : Scopes} {stmt : Stmt} {lines : List String}
    {error : RuntimeError} (hwell : stmt.WellFormed) :
    Performs scopes stmt scopes' lines (some error) → error.Ordinary
  | .expressionStops hvalue => hvalue.ordinary hwell rfl
  | .printStops hvalue => hvalue.ordinary hwell rfl
  | .initialStops hvalue => hvalue.ordinary hwell.2 rfl
  | .block hbody => Executes.ordinary hwell hbody

theorem Executes.ordinary {scopes scopes' : Scopes} {stmts : List Stmt} {lines : List String}
    {error : RuntimeError} (hwell : Stmt.AllWellFormed stmts) :
    Executes scopes stmts scopes' lines (some error) → error.Ordinary
  | .next _ hrest => Executes.ordinary hwell.2 hrest
  | .stops hfirst => Performs.ordinary hwell.1 hfirst

end

end Scoping

open Scoping Frames

theorem Frames.Resting.represents {machine : Machine} (h : Resting machine) :
    ∃ globals, Represents ⟨globals, []⟩ machine := by
  obtain ⟨globals, harena⟩ := h.arena
  exact ⟨globals, harena, h.frame⟩

theorem Stmt.AllWellFormed.exists_run {stmts : List Stmt} (h : AllWellFormed stmts)
    {globals : Bindings} {machine : Machine} (hmachine : Represents ⟨globals, []⟩ machine) :
    ∃ globals' lines error machine',
      Executes ⟨globals, []⟩ stmts ⟨globals', []⟩ lines error ∧
      Stmt.executeAll stmts machine = finish error machine' ∧
      Represents ⟨globals', []⟩ machine' ∧ machine'.output = machine.output ++ lines := by
  obtain ⟨final, lines, error, hrun⟩ := exists_executes h.proper ⟨globals, []⟩
  obtain ⟨machine', hexecute, hmoves⟩ := hrun.moves hmachine
  obtain ⟨globals', below⟩ := final
  obtain rfl : below = [] := List.eq_nil_of_length_eq_zero hmoves.depth
  exact ⟨globals', lines, error, machine', hrun, hexecute, hmoves.represents, hmoves.output⟩

/-- From the global frame a well-formed program ends, or stops with an ordinary mistake. -/
theorem Stmt.AllWellFormed.executeAll {stmts : List Stmt} (h : AllWellFormed stmts)
    {machine : Machine} (hmachine : Resting machine) :
    ∃ error machine', Stmt.executeAll stmts machine = finish error machine' ∧
      ∀ mistake ∈ error, mistake.Ordinary := by
  obtain ⟨globals, hrep⟩ := hmachine.represents
  obtain ⟨_, _, error, machine', hrun, hexecute, -⟩ := h.exists_run hrep
  refine ⟨error, machine', hexecute, ?_⟩
  rintro mistake rfl
  exact hrun.ordinary h

theorem Program.wellFormed (source : String) :
    Stmt.AllWellFormed (Program.ofSource source).statements :=
  TokenText.program_wellFormed (scan source).text

/-! ## Sessions -/

namespace Session

def after (session : Session) (steps : List Step) : Session :=
  steps.foldl (fun session step => (session.step step).2) session

theorem steps_append (session : Session) (first second : List Step) :
    session.steps (first ++ second) =
      session.steps first ++ (session.after first).steps second := by
  induction first generalizing session with
  | nil => rfl
  | cons step rest ih =>
      rw [List.cons_append, steps, ih]
      rfl

theorem after_resting {session : Session} (h : Resting session.machine) (steps : List Step) :
    Resting (session.after steps).machine := by
  induction steps generalizing session with
  | nil => exact h
  | cons step rest ih => exact ih (step_rests step h).1

/-- The program came to its end, or an ordinary mistake stopped it and is reported. -/
inductive EndsWell (session : Session) : Except Fault Bool × Session → Prop
  | completed (machine : Machine) : EndsWell session (.ok true, { session with machine })
  | stopped {error : RuntimeError} (machine : Machine) : error.Ordinary →
      EndsWell session (.ok false, { machine, report := session.report.add error.diagnostic })

theorem interpret_endsWell {statements : List Stmt} (h : Stmt.AllWellFormed statements)
    {session : Session} (hsession : Resting session.machine) :
    session.EndsWell (session.interpret statements) := by
  obtain ⟨error, machine, hexecute, hordinary⟩ := h.executeAll hsession
  rw [interpret, hexecute]
  cases error with
  | none => exact .completed machine
  | some error => exact .stopped _ (hordinary error rfl)

theorem EndsWell.result {session : Session} {ended : Except Fault Bool × Session}
    (h : session.EndsWell ended) : ∃ whole, ended.1 = .ok whole := by
  cases h with
  | completed machine => exact ⟨true, rfl⟩
  | stopped machine _ => exact ⟨false, rfl⟩

end Session

/-! ## What keeps a program from running -/

theorem kind_of_mem_problems {source : String} {d : Diagnostic}
    (h : d ∈ (scan source).problems) : d.kind = Diagnostic.lexicalKind := by
  obtain ⟨⟨lexeme, line⟩, -, hproblem⟩ := List.mem_filterMap.mp h
  simp only [Lexeme.problem?] at hproblem
  split at hproblem <;> cases hproblem <;> rfl

theorem TokenText.kind_of_mem_diagnostics {text : TokenText} {errors : List SyntaxError}
    {d : Diagnostic} (h : d ∈ text.diagnostics errors) : d.kind = Diagnostic.syntaxKind := by
  obtain ⟨error, -, rfl⟩ := List.mem_map.mp h
  rfl

theorem Program.isRuntime_of_mem_diagnostics {source : String} {d : Diagnostic}
    (h : d ∈ (Program.ofSource source).diagnostics) : d.isRuntime = false := by
  rcases List.mem_append.mp h with hmem | hmem
  · rw [Diagnostic.isRuntime, kind_of_mem_problems hmem]
    decide
  · rw [Diagnostic.isRuntime, TokenText.kind_of_mem_diagnostics hmem]
    decide

namespace Session

theorem hadError_program (session : Session) (source : String) :
    (session.clear.reporting (Program.ofSource source).diagnostics).report.hadError = true ↔
      (Program.ofSource source).diagnostics ≠ [] := by
  have hheld : (session.clear.reporting (Program.ofSource source).diagnostics).report.held =
      (Program.ofSource source).diagnostics := Report.held_addAll session.report.clear _
  have hkinds := fun d => @Program.isRuntime_of_mem_diagnostics source d
  rw [Report.hadError, hheld]
  cases hdiagnostics : (Program.ofSource source).diagnostics with
  | nil => simp
  | cons d rest =>
      rw [hdiagnostics] at hkinds
      simp [hkinds d (.head _)]

theorem step_run (session : Session) (source : String) :
    session.step (.run source) =
      answer ((session.quiet.run source).1.map fun _ => .nothing) (session.quiet.run source).2 :=
  rfl

theorem step_force (session : Session) (source : String) :
    session.step (.force source) =
      answer ((session.quiet.force source).1.map .completed) (session.quiet.force source).2 :=
  rfl

theorem step_list (session : Session) (source : String) :
    session.step (.list source) =
      answer ((session.quiet.list source).1.map fun _ => .nothing) (session.quiet.list source).2 :=
  rfl

theorem run_of_mistaken {source : String} (h : (Program.ofSource source).diagnostics ≠ [])
    (session : Session) :
    session.run source = (.ok false,
      session.clear.reporting (Program.ofSource source).diagnostics) :=
  if_pos ((session.hadError_program source).mpr h)

theorem run_of_clean {source : String} (h : (Program.ofSource source).diagnostics = [])
    (session : Session) :
    session.run source = session.clear.interpret (Program.ofSource source).statements := by
  refine (if_neg fun hhad => (session.hadError_program source).mp hhad h).trans ?_
  rw [h]
  rfl

theorem run_result {session : Session} (h : Resting session.machine) (source : String) :
    ∃ whole, (session.run source).1 = .ok whole := by
  by_cases hclean : (Program.ofSource source).diagnostics = []
  · rw [run_of_clean hclean]
    have hcleared : Resting session.clear.machine := h
    exact (interpret_endsWell (Program.wellFormed source) hcleared).result
  · rw [run_of_mistaken hclean]
    exact ⟨false, rfl⟩

end Session

/-! ## Listings -/

theorem Expr.Proper.listing {expr : Expr} (h : expr.Proper) :
    ∃ text, expr.listing = .ok text := by
  induction expr with
  | literal value => exact ⟨_, rfl⟩
  | reference name => exact ⟨_, rfl⟩
  | grouping inner ih =>
      obtain ⟨text, htext⟩ := ih h
      exact ⟨_, by rw [Expr.listing, htext]; rfl⟩
  | unary operator right ih =>
      obtain ⟨text, htext⟩ := ih h
      exact ⟨_, by rw [Expr.listing, htext]; rfl⟩
  | assign name value ih =>
      obtain ⟨text, htext⟩ := ih h
      exact ⟨_, by rw [Expr.listing, htext]; rfl⟩
  | binary left operator right ihLeft ihRight =>
      obtain ⟨text, htext⟩ := ihLeft h.1
      obtain ⟨text', htext'⟩ := ihRight h.2
      exact ⟨_, by rw [Expr.listing, htext, htext']; rfl⟩
  | stray kind => exact h.elim

theorem LeadingExpr.ofText_wellFormed {text : TokenText} {node : Expr}
    (h : (LeadingExpr.ofText text).node = some node) : node.WellFormed :=
  (Expr.read_orderly text.body).good_of_mem h

theorem LeadingExpr.ofTokens_wellFormed {tokens : List Token} {leading : LeadingExpr} {node : Expr}
    (h : LeadingExpr.ofTokens? tokens = some leading) (hnode : leading.node = some node) :
    node.WellFormed := by
  unfold LeadingExpr.ofTokens? at h
  split at h
  · cases h
    exact ofText_wellFormed hnode
  · split at h <;> cases h
    exact ofText_wellFormed hnode

theorem Session.list_result (session : Session) (source : String) :
    (session.list source).1 = .ok () := by
  unfold Session.list
  dsimp only
  split
  next => rfl
  next node hnode =>
    have hwell : node.WellFormed := LeadingExpr.ofText_wellFormed hnode
    obtain ⟨text, htext⟩ := hwell.proper.listing
    split
    · rfl
    · rw [htext]

/-- What is read from a source is well formed and does not fault in a session. -/
structure SafeSource (session : Session) (source : String) : Prop where
  wellFormed : Stmt.AllWellFormed (Program.ofSource source).statements
  interpreted : session.EndsWell (session.interpret (Program.ofSource source).statements)
  forced : (session.reporting (Program.ofSource source).diagnostics).EndsWell
    (session.force source)
  run : (Program.ofSource source).diagnostics = [] → session.clear.EndsWell (session.run source)
  rejected : (Program.ofSource source).diagnostics ≠ [] → session.run source =
    (.ok false, session.clear.reporting (Program.ofSource source).diagnostics)
  runAnswer : (session.step (.run source)).1.result = .ok .nothing
  forceAnswer : ∃ whole, (session.step (.force source)).1.result = .ok (.completed whole)
  listAnswer : (session.step (.list source)).1.result = .ok .nothing
  listing : ∀ node, (LeadingExpr.ofSource source).node = some node →
    node.WellFormed ∧ ∃ listing, node.listing = .ok listing

theorem Frames.Resting.safeSource {session : Session} (h : Resting session.machine)
    (source : String) : SafeSource session source where
  wellFormed := Program.wellFormed source
  interpreted := Session.interpret_endsWell (Program.wellFormed source) h
  forced := by
    have hreported : Resting (session.reporting (Program.ofSource source).diagnostics).machine := h
    exact Session.interpret_endsWell (Program.wellFormed source) hreported
  run := by
    intro hclean
    have hcleared : Resting session.clear.machine := h
    rw [Session.run_of_clean hclean]
    exact Session.interpret_endsWell (Program.wellFormed source) hcleared
  rejected := fun hmistaken => Session.run_of_mistaken hmistaken session
  runAnswer := by
    have hquiet : Resting session.quiet.machine := ⟨h.arena, h.frame⟩
    obtain ⟨whole, hwhole⟩ := Session.run_result hquiet source
    rw [Session.step_run, hwhole]
    rfl
  forceAnswer := by
    have hforced : Resting
        (session.quiet.reporting (Program.ofSource source).diagnostics).machine :=
      ⟨h.arena, h.frame⟩
    obtain ⟨whole, hwhole⟩ :=
      (Session.interpret_endsWell (Program.wellFormed source) hforced).result
    have hforce : (session.quiet.force source).1 = .ok whole := hwhole
    refine ⟨whole, ?_⟩
    rw [Session.step_force, hforce]
    rfl
  listAnswer := by
    rw [Session.step_list, Session.list_result]
    rfl
  listing := by
    intro node hnode
    have hwell : node.WellFormed := LeadingExpr.ofText_wellFormed hnode
    exact ⟨hwell, hwell.proper.listing⟩

/--
From every state of a session, with anything reported: what is read from a source is
well formed, and interpreting it completes or stops with an ordinary mistake, also
where a source with mistakes is forced.  Token lists are read as well formed trees
too, and every expression that is read has a listing.
-/
theorem read_programs_end_well (level : Int) (report : Report) (earlier : List Session.Step) :
    (∀ source, SafeSource (({ Session.start level with report } : Session).after earlier) source) ∧
    (∀ text : TokenText, Stmt.AllWellFormed text.program.statements) ∧
    ∀ tokens leading, LeadingExpr.ofTokens? tokens = some leading →
      ∀ node, leading.node = some node →
        node.WellFormed ∧ ∃ listing, node.listing = .ok listing := by
  have hstart : Resting ({ Session.start level with report } : Session).machine :=
    start_resting level
  refine ⟨(Session.after_resting hstart earlier).safeSource, TokenText.program_wellFormed, ?_⟩
  intro tokens leading hleading node hnode
  have hwell := LeadingExpr.ofTokens_wellFormed hleading hnode
  exact ⟨hwell, hwell.proper.listing⟩

/-- Forcing what is left of a broken source, after a step with a tree that no source has. -/
theorem read_programs_end_well_forced :
    let session := (Session.start 0).after [.interpret [.block [.stray .literal]]]
    let answer := session.step (.force "\x7b print x; \x7d )")
    (∃ whole, answer.1.result = .ok (.completed whole)) ∧
      answer.2.report.held.map Diagnostic.message =
        ["Expect expression.", "Undefined variable 'x'."] := by
  intro session answer
  obtain ⟨hsources, -, -⟩ :=
    read_programs_end_well 0 {} [.interpret [.block [.stray .literal]]]
  have hscan : scan "\x7b print x; \x7d )" =
      ⟨⟨[.bare .leftBrace "\x7b" 1, .bare .wordPrint "print" 1, .bare .identifier "x" 1,
        .bare .semicolon ";" 1, .bare .rightBrace "\x7d" 1, .bare .rightParen ")" 1],
        .ending 1⟩, []⟩ := by
    with_unfolding_all rfl
  have hprogram : Program.ofSource "\x7b print x; \x7d )" =
      ⟨[.block [.print (.reference (.bare .identifier "x" 1))]],
        [.atToken (.bare .rightParen ")" 1) "Expect expression."]⟩ := by
    rw [Program.ofSource, hscan]
    cbv
  refine ⟨(hsources "\x7b print x; \x7d )").forceAnswer, ?_⟩
  simp only [answer, session, Session.step, Session.force, hprogram]
  rfl

end LoxLang

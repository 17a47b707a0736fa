import LoxLang.Proofs.Scoping.Representation
import LoxLang.Session

/-!
# The machine keeps to lexical scoping

A machine that stands in the innermost frame of a stack moves as the rules say,
and every proper program has a run by the rules.  The rules are deterministic
because the machine is.
-/

namespace LoxLang.Scoping

/-- How a run ends that has come to a result by the rules. -/
def settle {α : Type} : Except RuntimeError α → Machine → EStateM.Result Fault Machine α
  | .ok value, machine => .ok value machine
  | .error error, machine => .error (.runtime error) machine

def finish : Option RuntimeError → Machine → EStateM.Result Fault Machine Unit
  | none, machine => .ok () machine
  | some error, machine => .error (.runtime error) machine

/-- The machine goes where the stack goes, and prints the lines on the way. -/
structure Moves (scopes scopes' : Scopes) (lines : List String) (machine machine' : Machine) :
    Prop where
  represents : Represents scopes' machine'
  depth : scopes'.below.length = scopes.below.length
  output : machine'.output = machine.output ++ lines

theorem Moves.refl {scopes : Scopes} {machine : Machine} (h : Represents scopes machine) :
    Moves scopes scopes [] machine machine :=
  ⟨h, rfl, (List.append_nil _).symm⟩

theorem Moves.trans {scopes₁ scopes₂ scopes₃ : Scopes} {lines lines' : List String}
    {machine₁ machine₂ machine₃ : Machine} (h : Moves scopes₁ scopes₂ lines machine₁ machine₂)
    (h' : Moves scopes₂ scopes₃ lines' machine₂ machine₃) :
    Moves scopes₁ scopes₃ (lines ++ lines') machine₁ machine₃ :=
  ⟨h'.represents, h'.depth.trans h.depth, by rw [h'.output, h.output, List.append_assoc]⟩

theorem Represents.record {scopes : Scopes} {machine : Machine} (h : Represents scopes machine)
    (event : Event) : Represents scopes (machine.record event) :=
  ⟨by rw [Machine.arena_record, h.arena], by rw [Machine.frame_record, h.frame]⟩

theorem Moves.record {scopes : Scopes} {machine : Machine} (h : Represents scopes machine)
    (event : Event) : Moves scopes scopes [] machine (machine.record event) :=
  ⟨h.record event, rfl, by rw [Machine.output_record, List.append_nil]⟩

theorem Represents.size {scopes : Scopes} {machine : Machine} (h : Represents scopes machine) :
    machine.arena.size = scopes.below.length + 1 := by
  rw [h.arena]
  exact length_frames _ _

theorem exists_represents (scopes : Scopes) : ∃ machine, Represents scopes machine :=
  ⟨{ arena := scopes.arena, frame := scopes.below.length }, rfl, rfl⟩

theorem operation_eq_settle (result : Except RuntimeError Value) (machine : Machine) :
    Run.operation result machine = settle result machine := by
  rw [Run.operation_apply]
  cases result <;> rfl

/-! ## The machine follows the rules -/

theorem Evaluates.moves {scopes scopes' : Scopes} {expr : Expr}
    {result : Except RuntimeError Value} (h : Evaluates scopes expr scopes' result)
    {machine : Machine} (hrep : Represents scopes machine) :
    ∃ machine', expr.evaluate machine = settle result machine' ∧
      Moves scopes scopes' [] machine machine' := by
  induction h generalizing machine with
  | literal => exact ⟨machine, rfl, .refl hrep⟩
  | grouping _ ih =>
      obtain ⟨machine', hrun, hmoves⟩ := ih hrep
      exact ⟨machine', by rw [Expr.evaluate, hrun], hmoves⟩
  | unary _ ih =>
      obtain ⟨machine', hrun, hmoves⟩ := ih hrep
      refine ⟨machine', ?_, hmoves⟩
      rw [Expr.evaluate_unary, hrun]
      exact operation_eq_settle _ _
  | unaryStops _ ih =>
      obtain ⟨machine', hrun, hmoves⟩ := ih hrep
      refine ⟨machine', ?_, hmoves⟩
      rw [Expr.evaluate_unary, hrun]
      rfl
  | binary _ _ ihLeft ihRight =>
      obtain ⟨middle, hleft, hmoves⟩ := ihLeft hrep
      obtain ⟨machine', hright, hmoves'⟩ := ihRight hmoves.represents
      refine ⟨machine', ?_, hmoves.trans hmoves'⟩
      rw [Expr.evaluate_binary, hleft]
      simp only [settle, hright]
      exact operation_eq_settle _ _
  | leftStops _ ih =>
      obtain ⟨machine', hrun, hmoves⟩ := ih hrep
      refine ⟨machine', ?_, hmoves⟩
      rw [Expr.evaluate_binary, hrun]
      rfl
  | rightStops _ _ ihLeft ihRight =>
      obtain ⟨middle, hleft, hmoves⟩ := ihLeft hrep
      obtain ⟨machine', hright, hmoves'⟩ := ihRight hmoves.represents
      refine ⟨machine', ?_, hmoves.trans hmoves'⟩
      rw [Expr.evaluate_binary, hleft]
      simp only [settle, hright]
  | reference hget =>
      refine ⟨machine, ?_, .refl hrep⟩
      rw [Expr.evaluate_reference, hrep.get, hget]
      rfl
  | unbound hget =>
      refine ⟨machine, ?_, .refl hrep⟩
      rw [Expr.evaluate_reference, hrep.get, hget]
      rfl
  | @assign scopes name right scopes₁ scopes₂ value _ hassign ih =>
      obtain ⟨after, hrun, hmoves⟩ := ih hrep
      have hstep := hmoves.represents.assign name value
      rw [hassign] at hstep
      obtain ⟨harena, hdepth⟩ := hstep
      refine ⟨{ after with arena := scopes₂.arena }.record (.assign name.lexeme value), ?_, ?_⟩
      · rw [Expr.evaluate_assign, hrun]
        simp only [settle, harena]
      · have hrep' : Represents scopes₂ { after with arena := scopes₂.arena } :=
          ⟨rfl, hmoves.represents.frame.trans hdepth.symm⟩
        exact ⟨hrep'.record _, hdepth.trans hmoves.depth, by
          rw [Machine.output_record, hmoves.output]⟩
  | assignStops _ ih =>
      obtain ⟨machine', hrun, hmoves⟩ := ih hrep
      refine ⟨machine', ?_, hmoves⟩
      rw [Expr.evaluate_assign, hrun]
      rfl
  | @assignUnbound scopes name right scopes₁ value _ hassign ih =>
      obtain ⟨after, hrun, hmoves⟩ := ih hrep
      have hstep := hmoves.represents.assign name value
      rw [hassign] at hstep
      refine ⟨after, ?_, hmoves⟩
      rw [Expr.evaluate_assign, hrun]
      simp only [settle, hstep]

theorem Represents.bindName {scopes : Scopes} {machine : Machine} (h : Represents scopes machine)
    (name : String) (value : Value) (event : Event) :
    Moves scopes (scopes.define name value) [] machine
      ({ machine with arena := (scopes.define name value).arena }.record event) := by
  have hrep : Represents (scopes.define name value)
      { machine with arena := (scopes.define name value).arena } := ⟨rfl, h.frame⟩
  exact ⟨hrep.record event, rfl, by rw [Machine.output_record, List.append_nil]⟩

mutual

theorem Performs.moves {scopes scopes' : Scopes} {stmt : Stmt} {lines : List String}
    {error : Option RuntimeError} {machine : Machine} (hrep : Represents scopes machine) :
    Performs scopes stmt scopes' lines error →
      ∃ machine', stmt.perform machine = finish error machine' ∧
        Moves scopes scopes' lines machine machine'
  | .expression hvalue => by
      obtain ⟨machine', hrun, hmoves⟩ := hvalue.moves hrep
      refine ⟨machine', ?_, hmoves⟩
      rw [Stmt.perform_expression, hrun]
      rfl
  | .expressionStops hvalue => by
      obtain ⟨machine', hrun, hmoves⟩ := hvalue.moves hrep
      refine ⟨machine', ?_, hmoves⟩
      rw [Stmt.perform_expression, hrun]
      rfl
  | .print hvalue => by
      obtain ⟨machine', hrun, hmoves⟩ := hvalue.moves hrep
      refine ⟨_, by rw [Stmt.perform_print, hrun]; rfl, ?_, hmoves.depth, ?_⟩
      · exact ⟨hmoves.represents.arena, hmoves.represents.frame⟩
      · rw [hmoves.output, List.append_nil]
  | .printStops hvalue => by
      obtain ⟨machine', hrun, hmoves⟩ := hvalue.moves hrep
      refine ⟨machine', ?_, hmoves⟩
      rw [Stmt.perform_print, hrun]
      rfl
  | @Performs.declare _ name => by
      refine ⟨_, ?_, hrep.bindName name.lexeme .nil (.declare name.lexeme .nil machine.frame)⟩
      rw [Stmt.perform_declare_none, hrep.define]
      rfl
  | @Performs.declareWith _ name _ _ value hvalue => by
      obtain ⟨middle, hrun, hmoves⟩ := hvalue.moves hrep
      refine ⟨_, ?_, hmoves.trans (hmoves.represents.bindName name.lexeme value
        (.declare name.lexeme value middle.frame))⟩
      rw [Stmt.perform_declare_some, hrun]
      simp only [settle, hmoves.represents.define, finish]
  | .initialStops hvalue => by
      obtain ⟨machine', hrun, hmoves⟩ := hvalue.moves hrep
      refine ⟨machine', ?_, hmoves⟩
      rw [Stmt.perform_declare_some, hrun]
      rfl
  | .block hbody => by
      obtain ⟨inside, hrun, hmoves⟩ := Executes.moves hrep.enterBlock hbody
      -- The body kept the depth, so what the release drops is the map of the block alone.
      have hdepth : scopes'.below.length = scopes.below.length := by
        have hinside := hmoves.depth
        simp only [Scopes.under, List.length_cons] at hinside
        omega
      have hsize := hrep.size
      refine ⟨inside.leaveBlock machine.arena.size machine.frame, ?_, ?_, hdepth, ?_⟩
      · rw [Stmt.perform_block _ (by omega), hrun]
        cases error <;> rfl
      · rw [hsize, hrep.frame, ← hdepth]
        exact hmoves.represents.leaveBlock
      · rw [Machine.output_leaveBlock, hmoves.output, Machine.output_enterBlock]

theorem Executes.moves {scopes scopes' : Scopes} {stmts : List Stmt} {lines : List String}
    {error : Option RuntimeError} {machine : Machine} (hrep : Represents scopes machine) :
    Executes scopes stmts scopes' lines error →
      ∃ machine', Stmt.executeAll stmts machine = finish error machine' ∧
        Moves scopes scopes' lines machine machine'
  | .done => ⟨machine, rfl, .refl hrep⟩
  | @Executes.next _ first _ _ _ _ _ _ hfirst hrest => by
      have hstart := Moves.record hrep (.execute first.kind)
      obtain ⟨middle, hrun, hmoves⟩ := Performs.moves hstart.represents hfirst
      obtain ⟨machine', hrun', hmoves'⟩ := Executes.moves hmoves.represents hrest
      refine ⟨machine', ?_, hstart.trans (hmoves.trans hmoves')⟩
      rw [Stmt.executeAll_cons, hrun]
      exact hrun'
  | @Executes.stops _ first _ _ _ _ hfirst => by
      have hstart := Moves.record hrep (.execute first.kind)
      obtain ⟨middle, hrun, hmoves⟩ := Performs.moves hstart.represents hfirst
      refine ⟨middle, ?_, hstart.trans hmoves⟩
      rw [Stmt.executeAll_cons, hrun]
      rfl

end

/-! ## Every proper program has a run -/

theorem exists_evaluates {expr : Expr} (hproper : expr.Proper) (scopes : Scopes) :
    ∃ scopes' result, Evaluates scopes expr scopes' result := by
  induction expr generalizing scopes with
  | literal value => exact ⟨_, _, .literal⟩
  | grouping inner ih =>
      obtain ⟨scopes', result, hinner⟩ := ih hproper scopes
      exact ⟨_, _, .grouping hinner⟩
  | unary operator right ih =>
      obtain ⟨scopes', result, hright⟩ := ih hproper scopes
      cases result with
      | ok operand => exact ⟨_, _, .unary hright⟩
      | error error => exact ⟨_, _, .unaryStops hright⟩
  | binary left operator right ihLeft ihRight =>
      obtain ⟨scopes₁, result, hleft⟩ := ihLeft hproper.1 scopes
      cases result with
      | error error => exact ⟨_, _, .leftStops hleft⟩
      | ok first =>
          obtain ⟨scopes₂, result, hright⟩ := ihRight hproper.2 scopes₁
          cases result with
          | ok second => exact ⟨_, _, .binary hleft hright⟩
          | error error => exact ⟨_, _, .rightStops hleft hright⟩
  | reference name =>
      cases hget : scopes.get? name.lexeme with
      | none => exact ⟨_, _, .unbound hget⟩
      | some value => exact ⟨_, _, .reference hget⟩
  | assign name right ih =>
      obtain ⟨scopes₁, result, hright⟩ := ih hproper scopes
      cases result with
      | error error => exact ⟨_, _, .assignStops hright⟩
      | ok value =>
          cases hassign : scopes₁.assign? name.lexeme value with
          | none => exact ⟨_, _, .assignUnbound hright hassign⟩
          | some scopes₂ => exact ⟨_, _, .assign hright hassign⟩
  | stray kind => exact hproper.elim

theorem Executes.exists_under {scopes final : Scopes} {inner : Bindings} {body : List Stmt}
    {lines : List String} {error : Option RuntimeError}
    (h : Executes (scopes.under inner) body final lines error) :
    ∃ (scopes' : Scopes) (inner' : Bindings), final = scopes'.under inner' := by
  obtain ⟨machine, hrep⟩ := exists_represents (scopes.under inner)
  obtain ⟨machine', _, hmoves⟩ := h.moves hrep
  have hdepth := hmoves.depth
  obtain ⟨top, below⟩ := final
  cases below with
  | nil => simp [Scopes.under] at hdepth
  | cons next more => exact ⟨⟨next, more⟩, top, rfl⟩

mutual

theorem exists_performs {stmt : Stmt} (hproper : stmt.Proper) (scopes : Scopes) :
    ∃ scopes' lines error, Performs scopes stmt scopes' lines error := by
  match stmt with
  | .expression value =>
      obtain ⟨scopes', result, hvalue⟩ := exists_evaluates hproper scopes
      cases result with
      | ok result => exact ⟨_, _, _, .expression hvalue⟩
      | error error => exact ⟨_, _, _, .expressionStops hvalue⟩
  | .print value =>
      obtain ⟨scopes', result, hvalue⟩ := exists_evaluates hproper scopes
      cases result with
      | ok result => exact ⟨_, _, _, .print hvalue⟩
      | error error => exact ⟨_, _, _, .printStops hvalue⟩
  | .declare name none => exact ⟨_, _, _, .declare⟩
  | .declare name (some initial) =>
      obtain ⟨scopes', result, hinitial⟩ := exists_evaluates hproper scopes
      cases result with
      | ok value => exact ⟨_, _, _, .declareWith hinitial⟩
      | error error => exact ⟨_, _, _, .initialStops hinitial⟩
  | .block body =>
      obtain ⟨final, lines, error, hbody⟩ := exists_executes hproper (scopes.under {})
      obtain ⟨scopes', inner, rfl⟩ := hbody.exists_under
      exact ⟨_, _, _, .block hbody⟩
  | .stray kind => exact hproper.elim

theorem exists_executes {stmts : List Stmt} (hproper : Stmt.AllProper stmts) (scopes : Scopes) :
    ∃ scopes' lines error, Executes scopes stmts scopes' lines error := by
  match stmts with
  | [] => exact ⟨_, _, _, .done⟩
  | first :: rest =>
      obtain ⟨scopes₁, lines, error, hfirst⟩ := exists_performs hproper.1 scopes
      cases error with
      | some error => exact ⟨_, _, _, .stops hfirst⟩
      | none =>
          obtain ⟨scopes₂, lines', error, hrest⟩ := exists_executes hproper.2 scopes₁
          exact ⟨_, _, _, .next hfirst hrest⟩

end

/-! ## One run only -/

theorem finish_injective {error error' : Option RuntimeError} {machine machine' : Machine}
    (h : finish error machine = finish error' machine') : error = error' ∧ machine = machine' := by
  cases error <;> cases error' <;> simp_all [finish]

theorem Executes.unique {scopes scopes₁ scopes₂ : Scopes} {stmts : List Stmt}
    {lines₁ lines₂ : List String} {error₁ error₂ : Option RuntimeError}
    (h₁ : Executes scopes stmts scopes₁ lines₁ error₁)
    (h₂ : Executes scopes stmts scopes₂ lines₂ error₂) :
    scopes₁ = scopes₂ ∧ lines₁ = lines₂ ∧ error₁ = error₂ := by
  obtain ⟨machine, hrep⟩ := exists_represents scopes
  obtain ⟨machine₁, hrun₁, hmoves₁⟩ := h₁.moves hrep
  obtain ⟨machine₂, hrun₂, hmoves₂⟩ := h₂.moves hrep
  obtain ⟨rfl, rfl⟩ := finish_injective (hrun₁.symm.trans hrun₂)
  have houtput := hmoves₁.output.symm.trans hmoves₂.output
  exact ⟨hmoves₁.represents.unique hmoves₂.represents, List.append_cancel_left houtput, rfl⟩

/-! ## Interpreting on the global frame -/

/-- Interpreting tells and leaves what the one run by the rules tells and leaves. -/
theorem interpret_agrees {statements : List Stmt} (hproper : Stmt.AllProper statements)
    (session : Session) (globals : Bindings)
    (harena : session.machine.arena = ⟨[{ values := globals }]⟩)
    (hframe : session.machine.frame = 0) :
    ∃ bottom lines error,
      (∀ scopes' lines' error', Executes ⟨globals, []⟩ statements scopes' lines' error' ↔
        scopes' = ⟨bottom, []⟩ ∧ lines' = lines ∧ error' = error) ∧
      (session.interpret statements).1 = .ok error.isNone ∧
      (session.interpret statements).2.machine.output = session.machine.output ++ lines ∧
      (session.interpret statements).2.machine.arena = ⟨[{ values := bottom }]⟩ ∧
      (session.interpret statements).2.machine.frame = 0 ∧
      (session.interpret statements).2.report =
        session.report.addAll (error.map RuntimeError.diagnostic).toList := by
  have hrep : Represents ⟨globals, []⟩ session.machine := ⟨harena, hframe⟩
  obtain ⟨final, lines, error, hrun⟩ := exists_executes hproper ⟨globals, []⟩
  obtain ⟨machine', hexecute, hmoves⟩ := hrun.moves hrep
  obtain ⟨bottom, below⟩ := final
  obtain rfl : below = [] := List.eq_nil_of_length_eq_zero hmoves.depth
  refine ⟨bottom, lines, error, fun scopes' lines' error' => ⟨fun h => h.unique hrun, ?_⟩, ?_⟩
  · rintro ⟨rfl, rfl, rfl⟩
    exact hrun
  · rw [Session.interpret, hexecute]
    cases error with
    | none =>
        exact ⟨rfl, hmoves.output, hmoves.represents.arena, hmoves.represents.frame, rfl⟩
    | some error =>
        have hreported := Moves.record hmoves.represents (.runtimeError error)
        refine ⟨rfl, ?_, hreported.represents.arena, hreported.represents.frame, rfl⟩
        exact (Machine.output_record _ _).trans hmoves.output

/-- In a block: hides a global, prints what hides it and stops at a name that nothing binds. -/
def shadowing : List Stmt :=
  [.declare ⟨.identifier, "a", .nil, 1⟩ (some (.literal (.string "inner"))),
    .print (.reference ⟨.identifier, "a", .nil, 2⟩),
    .expression (.assign ⟨.identifier, "b", .nil, 3⟩ (.literal .nil))]

def outerOnly : Bindings := ⟨[("a", .string "outer")]⟩

theorem interpret_agrees_shadowing :
    Stmt.AllProper [.block shadowing] ∧
      Executes ⟨outerOnly, []⟩ [.block shadowing] ⟨outerOnly, []⟩
        ["inner"] (some (undefined ⟨.identifier, "b", .nil, 3⟩)) ∧
      (Session.interpret [.block shadowing]
        { machine := { arena := ⟨[{ values := outerOnly }]⟩ } }).2.report.held =
          [.runtime 3 "Undefined variable 'b'."] := by
  have hproper : Stmt.AllProper [.block shadowing] :=
    ⟨⟨trivial, trivial, trivial, trivial⟩, trivial⟩
  have hbody : Executes (Scopes.under ⟨outerOnly, []⟩ {}) shadowing
      (Scopes.under ⟨outerOnly, []⟩ ⟨[("a", .string "inner")]⟩)
      ([] ++ ([(Value.string "inner").text] ++ []))
      (some (undefined ⟨.identifier, "b", .nil, 3⟩)) :=
    .next (.declareWith .literal) (.next (.print (.reference rfl))
      (.stops (.expressionStops (.assignUnbound .literal rfl))))
  have hrun : Executes ⟨outerOnly, []⟩ [.block shadowing] ⟨outerOnly, []⟩ ["inner"]
      (some (undefined ⟨.identifier, "b", .nil, 3⟩)) := .stops (.block hbody)
  obtain ⟨bottom, lines, error, hruns, _, _, _, _, hreport⟩ := interpret_agrees hproper
    { machine := { arena := ⟨[{ values := outerOnly }]⟩ } } outerOnly rfl rfl
  obtain ⟨_, _, rfl⟩ := (hruns _ _ _).mp hrun
  exact ⟨hproper, hrun, by rw [hreport]; rfl⟩

end LoxLang.Scoping

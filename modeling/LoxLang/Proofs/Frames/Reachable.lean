import LoxLang.Proofs.Frames.Sessions
import LoxLang.Proofs.Scoping.Operations

/-!
# Reachable arenas

A run pushes a frame only inside the current one, which is live, and releases only frames
that it has pushed.  So a session comes to reachable arenas alone, and in these every
lookup from a live frame ends.
-/

namespace LoxLang.Frames

open Arena Run

def Steady {α : Type} (run : Run α) : Prop :=
  ∀ machine, Disciplined machine → Reachable machine.arena → Reachable (last (run machine)).arena

variable {machine moment : Machine}

/-! ## Single operations -/

theorem reachable_of_apply {arena changed : Arena} {operation : Operation}
    (h : Reachable arena) (hpermitted : operation.Permitted arena)
    (hchanged : operation.apply arena = .ok changed) : Reachable changed := by
  have hafter : arena.after operation = changed := by rw [Arena.after, hchanged]
  exact hafter ▸ h.after hpermitted

theorem reachable_enterBlock (h : Reachable machine.arena) (hmachine : Disciplined machine) :
    Reachable machine.enterBlock.arena := by
  have hlive : Operation.Permitted machine.arena (.push machine.frame) := by
    have hinnermost := hmachine.innermost
    exact ⟨by omega, by omega⟩
  refine reachable_of_apply h hlive ?_
  simp [Operation.apply, Machine.enterBlock]

theorem reachable_leaveBlock (h : Reachable machine.arena) {inner : Nat} (hinner : 0 < inner)
    (outer : Nat) : Reachable (machine.leaveBlock inner outer).arena := by
  have hpermitted : Operation.Permitted machine.arena (.release inner) :=
    Int.natCast_pos.mpr hinner
  refine reachable_of_apply h hpermitted ?_
  have hne : inner ≠ 0 := by omega
  simp [Operation.apply, Arena.release, Machine.leaveBlock, hne, hinner]

section

variable {α β : Type}

theorem steady_pure (value : α) : Steady (pure value) :=
  fun _ _ h => h

theorem steady_throw (fault : Fault) : Steady (throw fault : Run α) :=
  fun _ _ h => h

theorem steady_get : Steady (get : Run Machine) :=
  fun _ _ h => h

theorem steady_ofResult (result : Except Fault α) : Steady (ofResult result) := by
  cases result with
  | ok value => exact steady_pure value
  | error fault => exact steady_throw fault

theorem steady_emit (event : Event) : Steady (emit event) := by
  intro machine _ h
  have harena : (last (emit event machine)).arena = machine.arena := Machine.arena_record _ _
  rwa [harena]

theorem steady_printLine (line : String) : Steady (printLine line) :=
  fun _ _ h => h

theorem steady_updateArena (operation : Operation)
    (hpermitted : ∀ arena, operation.Permitted arena) :
    Steady (updateArena fun arena => operation.apply arena) := by
  intro machine _ h
  rw [updateArena_apply]
  cases hchanged : operation.apply machine.arena with
  | ok changed => exact reachable_of_apply h (hpermitted _) hchanged
  | error fault => exact h

theorem Steady.bind {run : Run α} {next : α → Run β} (h : Steady run) (htidy : Tidy run)
    (hnext : ∀ value, Steady (next value)) : Steady (run >>= next) := by
  intro machine hmachine hreachable
  have hrun := h machine hmachine hreachable
  have hkeeps := htidy machine hmachine
  rw [bind_apply]
  cases hresult : run machine with
  | ok value middle =>
      rw [hresult] at hrun hkeeps
      exact hnext value middle (hkeeps.disciplined hmachine) hrun
  | error fault middle =>
      rw [hresult] at hrun
      exact hrun

theorem Steady.inBlock {body : Run Unit} (h : Steady body) : Steady (inBlock body) := by
  intro machine hmachine hreachable
  have hsize : 0 < machine.arena.size := by
    have hinnermost := hmachine.innermost
    omega
  have hbody := h machine.enterBlock hmachine.enterBlock
    (reachable_enterBlock hreachable hmachine)
  rw [inBlock_apply hsize]
  cases hresult : body machine.enterBlock with
  | ok value inside =>
      rw [hresult] at hbody
      exact reachable_leaveBlock hbody hsize machine.frame
  | error fault inside =>
      rw [hresult] at hbody
      exact reachable_leaveBlock hbody hsize machine.frame

end

/-! ## Expressions and statements -/

theorem evaluate_steady (expr : Expr) : Steady expr.evaluate := by
  induction expr with
  | literal value => exact steady_pure value
  | grouping inner ih => exact ih
  | unary operator right ih =>
      rw [Expr.evaluate]
      exact ih.bind (evaluate_tidy right) fun operand => steady_ofResult _
  | binary left operator right ihLeft ihRight =>
      rw [Expr.evaluate]
      exact ihLeft.bind (evaluate_tidy left) fun first =>
        ihRight.bind (evaluate_tidy right) fun second => steady_ofResult _
  | reference name =>
      rw [Expr.evaluate]
      exact steady_get.bind tidy_get fun machine => steady_ofResult _
  | assign name right ih =>
      rw [Expr.evaluate]
      refine ih.bind (evaluate_tidy right) fun value => steady_get.bind tidy_get fun machine => ?_
      have hassign : Steady (updateArena (·.assign machine.frame name value)) :=
        steady_updateArena (.assign machine.frame name value) fun _ => trivial
      exact hassign.bind (tidy_updateArena fun _ _ => enclosing_assign) fun _ =>
        (steady_emit _).bind (tidy_emit rfl) fun _ => steady_pure value
  | stray kind => exact steady_throw _

mutual

theorem perform_steady (stmt : Stmt) : Steady stmt.perform := by
  cases stmt with
  | expression value =>
      rw [Stmt.perform]
      exact (evaluate_steady value).bind (evaluate_tidy value) fun _ => steady_pure ()
  | print value =>
      rw [Stmt.perform]
      exact (evaluate_steady value).bind (evaluate_tidy value) fun result => steady_printLine _
  | declare name initial =>
      have hbind : ∀ value, Steady (do
          let frame := (← get).frame
          updateArena (·.define frame name.lexeme value)
          emit (.declare name.lexeme value frame) : Run Unit) := by
        intro value
        refine steady_get.bind tidy_get fun machine => ?_
        have hdefine : Steady (updateArena (·.define machine.frame name.lexeme value)) :=
          steady_updateArena (.define machine.frame name.lexeme value) fun _ => trivial
        exact hdefine.bind (tidy_updateArena fun _ _ => enclosing_define) fun _ => steady_emit _
      cases initial with
      | none =>
          rw [Stmt.perform]
          exact (steady_pure Value.nil).bind (tidy_pure _) hbind
      | some initial =>
          rw [Stmt.perform]
          exact (evaluate_steady initial).bind (evaluate_tidy initial) hbind
  | block body =>
      rw [Stmt.perform]
      exact (executeAll_steady body).inBlock
  | stray kind => exact steady_throw _

theorem executeAll_steady (stmts : List Stmt) : Steady (Stmt.executeAll stmts) := by
  cases stmts with
  | nil => exact steady_pure ()
  | cons first rest =>
      rw [Stmt.executeAll]
      refine (steady_emit _).bind (tidy_emit rfl) fun _ => ?_
      exact (perform_steady first).bind (perform_tidy first) fun _ => executeAll_steady rest

end

/-! ## On the way -/

theorem AtExpr.reachable {expr : Expr} (h : AtExpr expr machine moment)
    (hmachine : Disciplined machine) (hreachable : Reachable machine.arena) :
    Reachable moment.arena := by
  induction h with
  | starts => exact hreachable
  | ends => exact evaluate_steady _ _ hmachine hreachable
  | grouping _ ih => exact ih hmachine hreachable
  | unary _ ih => exact ih hmachine hreachable
  | left _ ih => exact ih hmachine hreachable
  | @right left _ _ machine first middle _ hleft _ ih =>
      have hkeeps := evaluate_tidy left machine hmachine
      have hmiddle := evaluate_steady left machine hmachine hreachable
      rw [hleft] at hkeeps hmiddle
      exact ih (hkeeps.disciplined hmachine) hmiddle
  | assign _ ih => exact ih hmachine hreachable

mutual

theorem AtStmt.reachable {stmt : Stmt} {machine moment : Machine} (hmachine : Disciplined machine)
    (hreachable : Reachable machine.arena) :
    AtStmt stmt machine moment → Reachable moment.arena
  | .starts => hreachable
  | .ends => perform_steady _ _ hmachine hreachable
  | .expression hvalue => hvalue.reachable hmachine hreachable
  | .print hvalue => hvalue.reachable hmachine hreachable
  | .initial hvalue => hvalue.reachable hmachine hreachable
  | .block hbody => hbody.reachable hmachine.enterBlock (reachable_enterBlock hreachable hmachine)

theorem AtStmts.reachable {stmts : List Stmt} {machine moment : Machine}
    (hmachine : Disciplined machine) (hreachable : Reachable machine.arena) :
    AtStmts stmts machine moment → Reachable moment.arena
  | .starts => hreachable
  | @AtStmts.first first _ _ _ hfirst => by
      have hstart : Keeps machine (machine.record (.execute first.kind)) := .record rfl machine
      exact hfirst.reachable (hstart.disciplined hmachine) (by simpa using hreachable)
  | @AtStmts.next first _ _ middle _ hperform hrest => by
      have hstart : Keeps machine (machine.record (.execute first.kind)) := .record rfl machine
      have hdisciplined := hstart.disciplined hmachine
      have hkeeps := perform_tidy first _ hdisciplined
      have hmiddle := perform_steady first _ hdisciplined (by simpa using hreachable)
      rw [hperform] at hkeeps hmiddle
      exact hrest.reachable (hkeeps.disciplined hdisciplined) hmiddle

end

/-! ## Sessions -/

variable {session : Session}

theorem interpret_reachable (statements : List Stmt) (h : Disciplined session.machine)
    (hreachable : Reachable session.machine.arena) :
    Reachable (session.interpret statements).2.machine.arena := by
  have hrun := executeAll_steady statements session.machine h hreachable
  unfold Session.interpret
  cases hresult : Stmt.executeAll statements session.machine with
  | ok value machine =>
      rw [hresult] at hrun
      exact hrun
  | error fault machine =>
      rw [hresult] at hrun
      cases fault with
      | runtime error =>
          change Reachable (machine.record _).arena
          rw [Machine.arena_record]
          exact hrun
      | _ => exact hrun

theorem run_reachable (source : String) (h : Disciplined session.machine)
    (hreachable : Reachable session.machine.arena) :
    Reachable (session.run source).2.machine.arena := by
  unfold Session.run
  dsimp only
  split
  · exact hreachable
  · let cleared := session.clear.reporting (Program.ofSource source).diagnostics
    have hcleared : Disciplined cleared.machine := h
    exact interpret_reachable _ hcleared hreachable

theorem list_reachable (source : String) (hreachable : Reachable session.machine.arena) :
    Reachable (session.list source).2.machine.arena := by
  unfold Session.list
  dsimp only
  split
  · exact hreachable
  · split
    · exact hreachable
    · split <;> exact hreachable

theorem evaluate_reachable (node : Expr) (h : Disciplined session.machine)
    (hreachable : Reachable session.machine.arena) :
    Reachable (session.evaluate node).2.machine.arena := by
  have hrun := evaluate_steady node session.machine h hreachable
  unfold Session.evaluate
  cases hresult : node.evaluate session.machine <;>
    · rw [hresult] at hrun
      exact hrun

theorem step_reachable (step : Session.Step) (h : Resting session.machine)
    (hreachable : Reachable session.machine.arena) :
    Reachable (session.step step).2.machine.arena := by
  have hresting : Resting session.quiet.machine := ⟨h.arena, h.frame⟩
  have hquiet := hresting.disciplined
  cases step with
  | run source => exact run_reachable source hquiet hreachable
  | fresh source => exact hreachable
  | list source => exact list_reachable source hreachable
  | force source =>
      let reported := session.quiet.reporting (Program.ofSource source).diagnostics
      have hreported : Disciplined reported.machine := hquiet
      exact interpret_reachable _ hreported hreachable
  | interpret statements => exact interpret_reachable statements hquiet hreachable
  | evaluate node => exact evaluate_reachable node hquiet hreachable

theorem AtStep.reachable {step : Session.Step} (h : AtStep session step moment)
    (hsession : Resting session.machine) (hreachable : Reachable session.machine.arena) :
    Reachable moment.arena := by
  have hquiet : Resting session.quiet.machine := ⟨hsession.arena, hsession.frame⟩
  cases h with
  | run _ h => exact h.reachable hquiet.disciplined hreachable
  | fresh _ h => exact h.reachable (start_resting 0).disciplined .initial
  | force h => exact h.reachable hquiet.disciplined hreachable
  | interpret h => exact h.reachable hquiet.disciplined hreachable
  | evaluate h => exact h.reachable hquiet.disciplined hreachable

theorem AtSteps.reachable {steps : List Session.Step} (h : AtSteps session steps moment)
    (hsession : Resting session.machine) (hreachable : Reachable session.machine.arena) :
    Reachable moment.arena := by
  induction h with
  | first h => exact h.reachable hsession hreachable
  | next _ ih => exact ih (step_rests _ hsession).1 (step_reachable _ hsession hreachable)

/--
In a reachable arena the global frame is enclosed by none, and every other frame by a live
one that is before it.  From a live frame, a lookup of a name meets live frames alone and
ends after at most as many steps as there are frames, and the name is read and assigned, or
it is undefined.  A session is in a reachable arena wherever a statement or an expression
starts or ends.
-/
theorem lookups_end_in_reachable_arenas :
    (∀ arena, Reachable arena → arena.Rooted ∧
      ∀ index place, arena.place? index = some place → ∀ name : Token,
        ∃ met ending, arena.Walks name.lexeme (some index) met ending ∧
          met.length ≤ arena.size ∧ (∀ index ∈ met, ∃ place, arena.place? index = some place) ∧
          arena.Answers index name ending) ∧
    ∀ level steps moment, AtSteps (Session.start level) steps moment → Reachable moment.arena := by
  constructor
  · intro arena harena
    exact ⟨harena.rooted, fun index place hplace name => harena.rooted.lookup_ends hplace name⟩
  · intro level steps moment hmoment
    exact hmoment.reachable (start_resting level) .initial

/-- The frames 2 and 3 are released at once, and the index 2 is used again for another frame. -/
def reusedIndex : Arena :=
  (((((Arena.initial.after (.define 0 "a" .nil)).after (.push 0)).after (.push 1)).after
    (.push 1)).after (.release 2)).after (.push 0)

theorem reusedIndex_reachable : Reachable reusedIndex :=
  .after (.after (.after (.after (.after (.after .initial (by decide)) (by decide)) (by decide))
    (by decide)) (by decide)) (by decide)

theorem lookups_end_in_reachable_arenas_reused :
    let name : Token := .bare .identifier "a" 1
    Reachable reusedIndex ∧ reusedIndex.place? (-1) = some 2 ∧
      ∃ met, reusedIndex.Walks "a" (some (-1)) met (.bound 0 .nil) ∧ met.length ≤ 3 ∧
        reusedIndex.get (-1) name = .ok .nil := by
  intro name
  have hplace : reusedIndex.place? (-1) = some 2 := rfl
  obtain ⟨-, hends⟩ := lookups_end_in_reachable_arenas.1 reusedIndex reusedIndex_reachable
  obtain ⟨met, ending, hwalks, hlength, -, hanswers⟩ := hends (-1) 2 hplace name
  have hending : reusedIndex.walk "a" 3 (some (-1)) = ending := hwalks.walk_eq hlength
  obtain rfl : .bound 0 .nil = ending := hending
  refine ⟨reusedIndex_reachable, hplace, met, hwalks, hlength, ?_⟩
  cases hanswers with
  | bound hget => exact hget

end LoxLang.Frames

import LoxLang.Proofs.Frames.Sessions
import LoxLang.Proofs.Scoping.Agreement
import LoxLang.Proofs.Wrapping.Overlay

/-!
# A program in a block

A program does in a block what it does outside: it prints the same and ends in the same
way.  What it binds in the block lies over the globals there and is bound among them
here, so each name has the same value in both.  Nothing is asked of the program's trees,
since a node that cannot be executed ends both runs at the same place.
-/

namespace LoxLang.Scoping

open Run Frames

/--
The machines stand in stacks that differ in having one or two maps at the bottom, and
printed the same.
-/
structure Overlays (bound : String → Bool) (depth : Nat) (machine machine' : Machine) : Prop where
  overlaid : ∃ scopes scopes', Overlaid bound scopes scopes' ∧ scopes.below.length = depth ∧
    Represents scopes machine ∧ Represents scopes' machine'
  output : machine'.output = machine.output

inductive EndsOverlaid {α : Type} (bound : String → Bool) (depth : Nat) :
    EStateM.Result Fault Machine α → EStateM.Result Fault Machine α → Prop
  | ok {value machine machine'} :
      Overlays bound depth machine machine' →
      EndsOverlaid bound depth (.ok value machine) (.ok value machine')
  | error {fault machine machine'} :
      Overlays bound depth machine machine' →
      EndsOverlaid bound depth (.error fault machine) (.error fault machine')

def Unaware {α : Type} (run : Run α) : Prop :=
  ∀ bound depth machine machine', Overlays bound depth machine machine' →
    EndsOverlaid bound depth (run machine) (run machine')

variable {bound : String → Bool} {depth : Nat} {machine machine' : Machine}

theorem Overlays.record (h : Overlays bound depth machine machine') (event event' : Event) :
    Overlays bound depth (machine.record event) (machine'.record event') := by
  obtain ⟨scopes, scopes', hover, hdepth, hrep, hrep'⟩ := h.overlaid
  exact ⟨⟨scopes, scopes', hover, hdepth, hrep.record event, hrep'.record event'⟩, by
    simp [h.output]⟩

theorem Overlays.printing (h : Overlays bound depth machine machine') (line : String) :
    Overlays bound depth { machine with output := machine.output ++ [line] }
      { machine' with output := machine'.output ++ [line] } := by
  obtain ⟨scopes, scopes', hover, hdepth, hrep, hrep'⟩ := h.overlaid
  exact ⟨⟨scopes, scopes', hover, hdepth, ⟨hrep.arena, hrep.frame⟩, ⟨hrep'.arena, hrep'.frame⟩⟩, by
    simp [h.output]⟩

/-! ## Names -/

theorem Overlays.get (h : Overlays bound depth machine machine') (name : Token) :
    machine'.arena.get machine'.frame name = machine.arena.get machine.frame name := by
  obtain ⟨scopes, scopes', hover, -, hrep, hrep'⟩ := h.overlaid
  rw [hrep.get, hrep'.get, hover.get?_eq]

theorem Overlays.assign (h : Overlays bound depth machine machine') (name : Token)
    (value : Value) :
    (∃ fault, machine.arena.assign machine.frame name value = .error fault ∧
      machine'.arena.assign machine'.frame name value = .error fault) ∨
    ∃ arena arena', machine.arena.assign machine.frame name value = .ok arena ∧
      machine'.arena.assign machine'.frame name value = .ok arena' ∧
      Overlays bound depth { machine with arena } { machine' with arena := arena' } := by
  obtain ⟨scopes, scopes', hover, hdepth, hrep, hrep'⟩ := h.overlaid
  have hstep := hrep.assign name value
  have hstep' := hrep'.assign name value
  have hassign := hover.assign name.lexeme value
  generalize scopes.assign? name.lexeme value = next at hstep hassign
  generalize scopes'.assign? name.lexeme value = next' at hstep' hassign
  cases hassign with
  | none => exact .inl ⟨_, hstep, hstep'⟩
  | @some next next' hover' =>
      obtain ⟨harena, hlength⟩ := hstep
      obtain ⟨harena', hlength'⟩ := hstep'
      have hnext : Represents next { machine with arena := next.arena } :=
        ⟨rfl, by rw [hlength]; exact hrep.frame⟩
      have hnext' : Represents next' { machine' with arena := next'.arena } :=
        ⟨rfl, by rw [hlength']; exact hrep'.frame⟩
      exact .inr ⟨_, _, harena, harena',
        ⟨next, next', hover', hlength.trans hdepth, hnext, hnext'⟩, h.output⟩

theorem Overlays.define (h : Overlays bound depth machine machine') (name : String)
    (value : Value) :
    ∃ arena arena', machine.arena.define machine.frame name value = .ok arena ∧
      machine'.arena.define machine'.frame name value = .ok arena' ∧
      Overlays bound depth { machine with arena } { machine' with arena := arena' } := by
  obtain ⟨scopes, scopes', hover, hdepth, hrep, hrep'⟩ := h.overlaid
  exact ⟨_, _, hrep.define name value, hrep'.define name value,
    ⟨_, _, hover.define name value, hdepth, ⟨rfl, hrep.frame⟩, ⟨rfl, hrep'.frame⟩⟩, h.output⟩

/-! ## Blocks -/

theorem Overlays.size_pos (h : Overlays bound depth machine machine') :
    0 < machine.arena.size ∧ 0 < machine'.arena.size := by
  obtain ⟨scopes, scopes', -, -, hrep, hrep'⟩ := h.overlaid
  have hsize := hrep.size
  have hsize' := hrep'.size
  omega

theorem Overlays.enterBlock (h : Overlays bound depth machine machine') :
    Overlays bound (depth + 1) machine.enterBlock machine'.enterBlock := by
  obtain ⟨scopes, scopes', hover, hdepth, hrep, hrep'⟩ := h.overlaid
  refine ⟨⟨_, _, hover.under, ?_, hrep.enterBlock, hrep'.enterBlock⟩, by simp [h.output]⟩
  simp [Scopes.under, hdepth]

theorem Overlays.leaveBlock (h : Overlays bound depth machine machine') {inside inside' : Machine}
    (hinside : Overlays bound (depth + 1) inside inside') :
    Overlays bound depth (inside.leaveBlock machine.arena.size machine.frame)
      (inside'.leaveBlock machine'.arena.size machine'.frame) := by
  obtain ⟨scopes, scopes', hover, hdepth, hrep, hrep'⟩ := h.overlaid
  obtain ⟨ended, ended', hended, hlength, hends, hends'⟩ := hinside.overlaid
  cases hended with
  | bottom _ _ => cases hlength
  | @under outer outer' top houter =>
      have hdepth' : outer.below.length = depth := Nat.succ.inj hlength
      have hleave := hends.leaveBlock
      have hleave' := hends'.leaveBlock
      have hsize : machine.arena.size = outer.below.length + 1 := by
        rw [hrep.size, hdepth, hdepth']
      have hframe : machine.frame = outer.below.length := by
        rw [hrep.frame, hdepth, hdepth']
      have hsize' : machine'.arena.size = outer'.below.length + 1 := by
        rw [hrep'.size, hover.depth, houter.depth, hdepth, hdepth']
      have hframe' : machine'.frame = outer'.below.length := by
        rw [hrep'.frame, hover.depth, houter.depth, hdepth, hdepth']
      rw [hsize, hframe, hsize', hframe']
      exact ⟨⟨outer, outer', houter, hdepth', hleave, hleave'⟩, by simp [hinside.output]⟩

/-! ## Expressions and statements -/

theorem unaware_pure {α : Type} (value : α) : Unaware (pure value) :=
  fun _ _ _ _ h => .ok h

theorem unaware_throw {α : Type} (fault : Fault) : Unaware (throw fault : Run α) :=
  fun _ _ _ _ h => .error h

theorem unaware_ofResult {α : Type} (result : Except Fault α) : Unaware (ofResult result) := by
  cases result with
  | ok value => exact unaware_pure value
  | error fault => exact unaware_throw fault

theorem Unaware.bind {α β : Type} {run : Run α} {next : α → Run β} (h : Unaware run)
    (hnext : ∀ value, Unaware (next value)) : Unaware (run >>= next) := by
  intro bound depth machine machine' hmachine
  have hrun := h bound depth machine machine' hmachine
  rw [bind_apply, bind_apply]
  generalize run machine = ended at hrun ⊢
  generalize run machine' = ended' at hrun ⊢
  cases hrun with
  | ok hmiddle => exact hnext _ _ _ _ _ hmiddle
  | error hended => exact .error hended

theorem evaluate_unaware (expr : Expr) : Unaware expr.evaluate := by
  induction expr with
  | literal value => exact unaware_pure value
  | grouping inner ih => exact ih
  | unary operator right ih =>
      rw [Expr.evaluate]
      exact ih.bind fun operand => unaware_ofResult _
  | binary left operator right ihLeft ihRight =>
      rw [Expr.evaluate]
      exact ihLeft.bind fun first => ihRight.bind fun second => unaware_ofResult _
  | reference name =>
      intro bound depth machine machine' h
      rw [Expr.evaluate_reference, Expr.evaluate_reference, h.get]
      cases machine.arena.get machine.frame name with
      | ok value => exact .ok h
      | error fault => exact .error h
  | assign name right ih =>
      intro bound depth machine machine' h
      have hright := ih bound depth machine machine' h
      rw [Expr.evaluate_assign, Expr.evaluate_assign]
      generalize right.evaluate machine = ended at hright ⊢
      generalize right.evaluate machine' = ended' at hright ⊢
      cases hright with
      | error hended => exact .error hended
      | @ok value after after' hafter =>
          rcases hafter.assign name value with ⟨fault, hfault, hfault'⟩ | hassigned
          · simp only [hfault, hfault']
            exact .error hafter
          · obtain ⟨arena, arena', harena, harena', hnext⟩ := hassigned
            simp only [harena, harena']
            exact .ok (hnext.record _ _)
  | stray kind => exact unaware_throw _

theorem unaware_bindName (name : Token) (value : Value) :
    Unaware (do
      let frame := (← get).frame
      updateArena (·.define frame name.lexeme value)
      emit (.declare name.lexeme value frame) : Run Unit) := by
  intro bound depth machine machine' h
  obtain ⟨arena, arena', harena, harena', hnext⟩ := h.define name.lexeme value
  rw [Stmt.bindName_apply, Stmt.bindName_apply, harena, harena']
  exact .ok (hnext.record _ _)

mutual

theorem perform_unaware (stmt : Stmt) : Unaware stmt.perform := by
  cases stmt with
  | expression value =>
      rw [Stmt.perform]
      exact (evaluate_unaware value).bind fun _ => unaware_pure ()
  | print value =>
      rw [Stmt.perform]
      exact (evaluate_unaware value).bind fun result _ _ _ _ h => .ok (h.printing _)
  | declare name initial =>
      cases initial with
      | none =>
          rw [Stmt.perform]
          exact (unaware_pure Value.nil).bind (unaware_bindName name)
      | some initial =>
          rw [Stmt.perform]
          exact (evaluate_unaware initial).bind (unaware_bindName name)
  | block body =>
      intro bound depth machine machine' h
      have hbody := executeAll_unaware body bound (depth + 1) _ _ h.enterBlock
      obtain ⟨hsize, hsize'⟩ := h.size_pos
      rw [Stmt.perform_block body hsize, Stmt.perform_block body hsize']
      generalize Stmt.executeAll body machine.enterBlock = ended at hbody ⊢
      generalize Stmt.executeAll body machine'.enterBlock = ended' at hbody ⊢
      cases hbody with
      | ok hinside => exact .ok (h.leaveBlock hinside)
      | error hinside => exact .error (h.leaveBlock hinside)
  | stray kind => exact unaware_throw _

theorem executeAll_unaware (stmts : List Stmt) : Unaware (Stmt.executeAll stmts) := by
  cases stmts with
  | nil => exact unaware_pure ()
  | cons first rest =>
      intro bound depth machine machine' h
      have hfirst := perform_unaware first bound depth _ _
        (h.record (.execute first.kind) (.execute first.kind))
      rw [Stmt.executeAll_cons, Stmt.executeAll_cons]
      generalize first.perform (machine.record (.execute first.kind)) = ended at hfirst ⊢
      generalize first.perform (machine'.record (.execute first.kind)) = ended' at hfirst ⊢
      cases hfirst with
      | ok hmiddle => exact executeAll_unaware rest bound depth _ _ hmiddle
      | error hended => exact .error hended

end

/-! ## A whole program -/

def insideBlock (machine : Machine) : Machine :=
  (machine.record (.execute .block)).enterBlock

theorem executeAll_block (body : List Stmt) (h : 0 < machine.arena.size) :
    Stmt.executeAll [.block body] machine =
      match Stmt.executeAll body (insideBlock machine) with
      | .ok _ after => .ok () (after.leaveBlock machine.arena.size machine.frame)
      | .error fault after =>
          .error fault (after.leaveBlock machine.arena.size machine.frame) := by
  have hsize : 0 < (machine.record (.execute .block)).arena.size := by simpa using h
  rw [Stmt.executeAll_cons]
  change (match (Stmt.block body).perform (machine.record (.execute .block)) with
    | .ok _ after => Stmt.executeAll [] after
    | .error fault after => .error fault after) = _
  rw [Stmt.perform_block body hsize, Machine.arena_record, Machine.frame_record]
  unfold insideBlock
  cases Stmt.executeAll body (machine.record (.execute .block)).enterBlock <;> rfl

theorem Represents.insideBlock {globals : Bindings} (h : Represents ⟨globals, []⟩ machine) :
    Overlays (fun name => (globals.get? name).isSome) 0 machine (insideBlock machine) := by
  have hinside := (h.record (.execute .block)).enterBlock
  have hover : Overlaid (fun name => (globals.get? name).isSome) ⟨globals, []⟩
      (Scopes.under ⟨globals, []⟩ {}) := by
    refine .bottom (fun name => ?_) fun _ => rfl
    simp
  exact ⟨⟨_, _, hover, rfl, h, hinside⟩, by simp [Scoping.insideBlock]⟩

def boundIn? (frame : Nat) (name : String) (machine : Machine) : Option Value :=
  machine.arena.frames[frame]?.bind fun frame => frame.values.get? name

theorem Represents.boundIn?_globals {globals : Bindings} (h : Represents ⟨globals, []⟩ machine)
    (name : String) : boundIn? 0 name machine = globals.get? name := by
  simp [boundIn?, h.arena, Scopes.arena, frames]

theorem Represents.boundIn?_block {outer inner : Bindings}
    (h : Represents (Scopes.under ⟨outer, []⟩ inner) machine) (name : String) :
    boundIn? 0 name machine = outer.get? name ∧ boundIn? 1 name machine = inner.get? name := by
  simp [boundIn?, h.arena, Scopes.arena, Scopes.under, frames]

/--
What is left by a program, and by the same program in a block: the machine as it was
before, after the program, at the end of the block, and after the block.
-/
structure BlockLeaves (before plain inside wrapped : Machine) : Prop where
  output : wrapped.output = plain.output
  plainResting : Resting plain
  wrappedResting : Resting wrapped
  /-- The block leaves the names of the globals as they were. -/
  names : ∀ name, (boundIn? 0 name wrapped).isSome = (boundIn? 0 name before).isSome
  globals : ∀ name, boundIn? 0 name wrapped = boundIn? 0 name inside
  /-- The program leaves what the block would have shown at its end. -/
  values : ∀ name, boundIn? 0 name plain = (boundIn? 1 name inside).or (boundIn? 0 name inside)
  shown : ∀ name, plain.arena.get plain.frame name = inside.arena.get inside.frame name

theorem Overlays.blockLeaves {globals : Bindings} (h : Represents ⟨globals, []⟩ machine)
    {plain inside : Machine}
    (hend : Overlays (fun name => (globals.get? name).isSome) 0 plain inside) :
    BlockLeaves machine plain inside (inside.leaveBlock machine.arena.size machine.frame) := by
  obtain ⟨scopes, scopes', hover, hdepth, hplain, hinside⟩ := hend.overlaid
  cases hover with
  | under hover => cases hdepth
  | @bottom globals' inner outer hvalues hnames =>
      have hwrapped := hinside.leaveBlock
      have hblock := fun name => hinside.boundIn?_block name
      rw [h.size, h.frame]
      refine {
        output := by simp [hend.output]
        plainResting := ⟨⟨_, hplain.arena⟩, hplain.frame⟩
        wrappedResting := ⟨⟨_, hwrapped.arena⟩, hwrapped.frame⟩
        names := fun name => ?_
        globals := fun name => ?_
        values := fun name => ?_
        shown := fun name => (hend.get name).symm }
      · rw [hwrapped.boundIn?_globals, h.boundIn?_globals, hnames]
      · rw [hwrapped.boundIn?_globals, (hblock name).1]
      · rw [hplain.boundIn?_globals, (hblock name).1, (hblock name).2, hvalues]

end LoxLang.Scoping

namespace LoxLang

open Scoping Frames

namespace Session

def concluded (session : Session) :
    EStateM.Result Fault Machine Unit → Except Fault Bool × Session
  | .ok _ machine => (.ok true, { session with machine })
  | .error (.runtime error) machine =>
      (.ok false,
        { machine := machine.record (.runtimeError error)
          report := session.report.add error.diagnostic })
  | .error fault machine => (.error fault, { session with machine })

theorem interpret_eq_concluded (statements : List Stmt) (session : Session) :
    session.interpret statements =
      session.concluded (Stmt.executeAll statements session.machine) := by
  unfold interpret concluded
  cases Stmt.executeAll statements session.machine <;> rfl

end Session

theorem Scoping.BlockLeaves.record {before plain inside wrapped : Machine}
    (h : BlockLeaves before plain inside wrapped) (event : Event) :
    BlockLeaves before (plain.record event) inside (wrapped.record event) where
  output := by simp [h.output]
  plainResting := ⟨by simpa using h.plainResting.arena, by simpa using h.plainResting.frame⟩
  wrappedResting := ⟨by simpa using h.wrappedResting.arena, by simpa using h.wrappedResting.frame⟩
  names := by simpa [boundIn?] using h.names
  globals := by simpa [boundIn?] using h.globals
  values := by simpa [boundIn?] using h.values
  shown := by simpa using h.shown

/--
From the global frame a program and the block with the program in it answer and report the
same, and leave the globals as `BlockLeaves` says, whatever ends them.
-/
theorem block_runs_as_its_body {session : Session} (h : Resting session.machine)
    (statements : List Stmt) :
    let plain := session.interpret statements
    let wrapped := session.interpret [.block statements]
    let inside := last (Stmt.executeAll statements (insideBlock session.machine))
    wrapped.1 = plain.1 ∧ wrapped.2.report = plain.2.report ∧
      BlockLeaves session.machine plain.2.machine inside wrapped.2.machine := by
  obtain ⟨globals, harena⟩ := h.arena
  have hrep : Represents ⟨globals, []⟩ session.machine := ⟨harena, h.frame⟩
  have hsize : 0 < session.machine.arena.size := by simp [hrep.size]
  have hrun := executeAll_unaware statements _ 0 _ _ hrep.insideBlock
  simp only [Session.interpret_eq_concluded, executeAll_block statements hsize]
  generalize Stmt.executeAll statements session.machine = ended at hrun ⊢
  generalize Stmt.executeAll statements (insideBlock session.machine) = ended' at hrun ⊢
  cases hrun with
  | ok hend => exact ⟨rfl, rfl, hend.blockLeaves hrep⟩
  | @error fault _ _ hend =>
      have hleaves := hend.blockLeaves hrep
      cases fault with
      | runtime error => exact ⟨rfl, rfl, hleaves.record _⟩
      | _ => exact ⟨rfl, rfl, hleaves⟩

/--
Assigns a global, hides it and assigns what hides it from a block within, before a name
that nothing binds is to be printed.
-/
def hidingProgram : List Stmt :=
  let name : Token := ⟨.identifier, "a", .nil, 1⟩
  [.expression (.assign name (.literal (.string "assigned"))),
    .declare name (some (.literal (.string "hiding"))),
    .block [.expression (.assign name (.literal (.string "deep"))),
      .print (.reference name), .print (.reference ⟨.identifier, "b", .nil, 2⟩)]]

def hidingSession : Session where
  machine := { arena := ⟨[{ values := outerOnly }]⟩ }

theorem block_runs_as_its_body_hiding :
    let plain := hidingSession.interpret hidingProgram
    let wrapped := hidingSession.interpret [.block hidingProgram]
    Resting hidingSession.machine ∧
      wrapped.1 = .ok false ∧ wrapped.2.machine.output = ["deep"] ∧
      wrapped.2.report.held = [.runtime 2 "Undefined variable 'b'."] ∧
      boundIn? 0 "a" plain.2.machine = some (.string "deep") ∧
      boundIn? 0 "a" wrapped.2.machine = some (.string "assigned") := by
  have hresting : Resting hidingSession.machine := ⟨⟨_, rfl⟩, rfl⟩
  obtain ⟨hresult, hreport, hleaves⟩ := block_runs_as_its_body hresting hidingProgram
  have hplain : (hidingSession.interpret hidingProgram).1 = .ok false := rfl
  have houtput : (hidingSession.interpret hidingProgram).2.machine.output = ["deep"] := rfl
  have hheld : (hidingSession.interpret hidingProgram).2.report.held =
      [.runtime 2 "Undefined variable 'b'."] := rfl
  exact ⟨hresting, hresult.trans hplain, hleaves.output.trans houtput,
    (congrArg Report.held hreport).trans hheld, rfl, rfl⟩

end LoxLang

import LoxLang.Execution.Machine

/-!
# What each step of a run does to the machine

A run is a function of the machine, and every primitive of it has one equation
here.  Later files use these equations and do not unfold the primitives.
-/

namespace LoxLang

namespace Event

def traced (event : Event) (level : Int) : List Event :=
  if event.level ≤ level then [event] else []

theorem traced_of_le (event : Event) {level : Int} (h : event.level ≤ level) :
    event.traced level = [event] :=
  if_pos h

theorem traced_of_lt (event : Event) {level : Int} (h : level < event.level) :
    event.traced level = [] :=
  if_neg (Int.not_le.mpr h)

end Event

namespace Machine

@[simp] theorem arena_record (event : Event) (machine : Machine) :
    (machine.record event).arena = machine.arena := by
  unfold record
  split <;> rfl

@[simp] theorem frame_record (event : Event) (machine : Machine) :
    (machine.record event).frame = machine.frame := by
  unfold record
  split <;> rfl

@[simp] theorem level_record (event : Event) (machine : Machine) :
    (machine.record event).level = machine.level := by
  unfold record
  split <;> rfl

@[simp] theorem output_record (event : Event) (machine : Machine) :
    (machine.record event).output = machine.output := by
  unfold record
  split <;> rfl

theorem trace_record (event : Event) (machine : Machine) :
    (machine.record event).trace = machine.trace ++ event.traced machine.level := by
  unfold record Event.traced
  split <;> simp

def enterBlock (machine : Machine) : Machine :=
  let inner := machine.arena.size
  let grown := { machine with arena := (machine.arena.push (some machine.frame)).2 }
  { grown.record (.enterFrame inner machine.frame) with frame := inner }

/-- The machine back in the outer frame, without the inner one and those behind it. -/
def leaveBlock (inner outer : Nat) (machine : Machine) : Machine :=
  { machine with arena := ⟨machine.arena.frames.take inner⟩, frame := outer }.record
    (.releaseFrame inner)

@[simp] theorem level_enterBlock (machine : Machine) :
    machine.enterBlock.level = machine.level :=
  level_record _ _

@[simp] theorem level_leaveBlock (inner outer : Nat) (machine : Machine) :
    (machine.leaveBlock inner outer).level = machine.level :=
  level_record _ _

theorem trace_enterBlock (machine : Machine) :
    machine.enterBlock.trace = machine.trace ++
      (Event.enterFrame machine.arena.size machine.frame).traced machine.level :=
  trace_record _ _

theorem trace_leaveBlock (inner outer : Nat) (machine : Machine) :
    (machine.leaveBlock inner outer).trace = machine.trace ++
      (Event.releaseFrame inner).traced machine.level :=
  trace_record _ _

@[simp] theorem output_enterBlock (machine : Machine) :
    machine.enterBlock.output = machine.output :=
  output_record _ _

@[simp] theorem output_leaveBlock (inner outer : Nat) (machine : Machine) :
    (machine.leaveBlock inner outer).output = machine.output :=
  output_record _ _

end Machine

namespace Run

variable {α β : Type} {machine machine' : Machine} {run : Run α} {next : α → Run β}
  {value : α} {fault : Fault}

theorem bind_apply (run : Run α) (next : α → Run β) (machine : Machine) :
    (run >>= next) machine =
      match run machine with
      | .ok value machine' => next value machine'
      | .error fault machine' => .error fault machine' := by
  change EStateM.bind run next machine = _
  rw [EStateM.bind]
  cases run machine <;> rfl

theorem bind_of_ok (h : run machine = .ok value machine') :
    (run >>= next) machine = next value machine' := by
  rw [bind_apply, h]

theorem updateArena_apply (change : Arena → Except Fault Arena) (machine : Machine) :
    updateArena change machine =
      match change machine.arena with
      | .ok arena => .ok () { machine with arena }
      | .error fault => .error fault machine := by
  change (ofResult (change machine.arena) >>= fun arena => set { machine with arena }) machine = _
  cases change machine.arena <;> rfl

theorem leave_apply {inner : Nat} (outer : Nat) (hinner : 0 < inner) (machine : Machine) :
    (do enterFrame outer
        updateArena (·.release inner)
        emit (.releaseFrame inner) : Run Unit) machine =
      .ok () (machine.leaveBlock inner outer) := by
  have hrelease : machine.arena.release inner = .ok ⟨machine.arena.frames.take inner⟩ := by
    have hne : inner ≠ 0 := by omega
    simp [Arena.release, hne, hinner]
  have hupdate : updateArena (·.release inner) { machine with frame := outer } =
      .ok () { machine with arena := ⟨machine.arena.frames.take inner⟩, frame := outer } := by
    rw [updateArena_apply, hrelease]
  change (updateArena (·.release inner) >>= fun _ => emit (.releaseFrame inner))
    { machine with frame := outer } = _
  rw [bind_of_ok hupdate]
  rfl

/-- A block runs inside a new frame and ends outside it, whether or not it faults. -/
theorem inBlock_apply {body : Run Unit} {machine : Machine} (h : 0 < machine.arena.size) :
    inBlock body machine =
      match body machine.enterBlock with
      | .ok _ after => .ok () (after.leaveBlock machine.arena.size machine.frame)
      | .error fault after => .error fault (after.leaveBlock machine.arena.size machine.frame) := by
  change ensuring body _ machine.enterBlock = _
  unfold ensuring
  cases body machine.enterBlock with
  | ok value after => simp only [leave_apply machine.frame h]
  | error fault after => simp only [leave_apply machine.frame h]

theorem operation_apply (result : Except RuntimeError Value) (machine : Machine) :
    operation result machine =
      match result with
      | .ok value => .ok value machine
      | .error error => .error (.runtime error) machine := by
  cases result <;> rfl

end Run

open Run

/-! ## Expressions -/

namespace Expr

theorem evaluate_unary (operator : Token) (right : Expr) (machine : Machine) :
    (unary operator right).evaluate machine =
      match right.evaluate machine with
      | .ok operand after => operation (operator.applyUnary operand) after
      | .error fault after => .error fault after := by
  rw [evaluate, bind_apply]
  cases right.evaluate machine <;> rfl

theorem evaluate_binary (left : Expr) (operator : Token) (right : Expr) (machine : Machine) :
    (binary left operator right).evaluate machine =
      match left.evaluate machine with
      | .ok first middle =>
          (match right.evaluate middle with
            | .ok second after => operation (operator.applyBinary first second) after
            | .error fault after => .error fault after)
      | .error fault after => .error fault after := by
  rw [evaluate, bind_apply]
  cases left.evaluate machine with
  | error fault after => rfl
  | ok first middle =>
      dsimp only
      rw [bind_apply]
      cases right.evaluate middle <;> rfl

theorem evaluate_reference (name : Token) (machine : Machine) :
    (reference name).evaluate machine =
      match machine.arena.get machine.frame name with
      | .ok value => .ok value machine
      | .error fault => .error fault machine := by
  rw [evaluate]
  change ofResult (machine.arena.get machine.frame name) machine = _
  cases machine.arena.get machine.frame name <;> rfl

theorem evaluate_assign (name : Token) (value : Expr) (machine : Machine) :
    (assign name value).evaluate machine =
      match value.evaluate machine with
      | .ok result after =>
          (match after.arena.assign after.frame name result with
            | .ok arena => .ok result ({ after with arena }.record (.assign name.lexeme result))
            | .error fault => .error fault after)
      | .error fault after => .error fault after := by
  rw [evaluate, bind_apply]
  cases value.evaluate machine with
  | error fault after => rfl
  | ok result after =>
      change (updateArena (·.assign after.frame name result) >>= fun _ =>
        emit (.assign name.lexeme result) >>= fun _ => pure result) after = _
      rw [bind_apply, updateArena_apply]
      dsimp only
      cases after.arena.assign after.frame name result <;> rfl

end Expr

/-! ## Statements -/

namespace Stmt

theorem perform_expression (value : Expr) (machine : Machine) :
    (expression value).perform machine =
      match value.evaluate machine with
      | .ok _ after => .ok () after
      | .error fault after => .error fault after := by
  rw [perform, bind_apply]
  cases value.evaluate machine <;> rfl

theorem perform_print (value : Expr) (machine : Machine) :
    (print value).perform machine =
      match value.evaluate machine with
      | .ok result after => .ok () { after with output := after.output ++ [result.text] }
      | .error fault after => .error fault after := by
  rw [perform, bind_apply]
  cases value.evaluate machine <;> rfl

theorem bindName_apply (name : Token) (value : Value) (machine : Machine) :
    (do let frame := (← get).frame
        updateArena (·.define frame name.lexeme value)
        emit (.declare name.lexeme value frame) : Run Unit) machine =
      match machine.arena.define machine.frame name.lexeme value with
      | .ok arena =>
          .ok () ({ machine with arena }.record (.declare name.lexeme value machine.frame))
      | .error fault => .error fault machine := by
  change (updateArena (·.define machine.frame name.lexeme value) >>= fun _ =>
    emit (.declare name.lexeme value machine.frame)) machine = _
  rw [bind_apply, updateArena_apply]
  cases machine.arena.define machine.frame name.lexeme value <;> rfl

theorem perform_declare_none (name : Token) (machine : Machine) :
    (declare name none).perform machine =
      match machine.arena.define machine.frame name.lexeme .nil with
      | .ok arena =>
          .ok () ({ machine with arena }.record (.declare name.lexeme .nil machine.frame))
      | .error fault => .error fault machine := by
  rw [perform]
  exact bindName_apply name .nil machine

theorem perform_declare_some (name : Token) (initial : Expr) (machine : Machine) :
    (declare name (some initial)).perform machine =
      match initial.evaluate machine with
      | .ok value after =>
          (match after.arena.define after.frame name.lexeme value with
            | .ok arena =>
                .ok () ({ after with arena }.record (.declare name.lexeme value after.frame))
            | .error fault => .error fault after)
      | .error fault after => .error fault after := by
  rw [perform, bind_apply]
  cases initial.evaluate machine with
  | error fault after => rfl
  | ok value after => exact bindName_apply name value after

theorem perform_block (body : List Stmt) {machine : Machine} (h : 0 < machine.arena.size) :
    (block body).perform machine =
      match executeAll body machine.enterBlock with
      | .ok _ after => .ok () (after.leaveBlock machine.arena.size machine.frame)
      | .error fault after => .error fault (after.leaveBlock machine.arena.size machine.frame) := by
  rw [perform]
  exact inBlock_apply h

theorem executeAll_cons (first : Stmt) (rest : List Stmt) (machine : Machine) :
    executeAll (first :: rest) machine =
      match first.perform (machine.record (.execute first.kind)) with
      | .ok _ after => executeAll rest after
      | .error fault after => .error fault after := by
  rw [executeAll]
  change (first.perform >>= fun _ => executeAll rest) (machine.record (.execute first.kind)) = _
  rw [bind_apply]
  cases first.perform (machine.record (.execute first.kind)) <;> rfl

end Stmt

end LoxLang

import LoxLang.Execution.Event
import LoxLang.Execution.Operators
import LoxLang.Scope.Arena

/-!
The machine that runs programs.

It holds the arena, the frame that is current, what was printed and what was
traced.  A run changes the machine and ends with a value or a fault; what it did
before a fault stays done, except that a block's frame is always released.
-/

namespace LoxLang

structure Machine where
  arena : Arena := .initial
  frame : Nat := 0
  /-- The greatest level of the events that are traced. -/
  level : Int := 0
  output : List String := []
  trace : List Event := []
  deriving Repr

abbrev Run := EStateM Fault Machine

namespace Machine

def record (event : Event) (machine : Machine) : Machine :=
  if event.level ≤ machine.level then { machine with trace := machine.trace ++ [event] }
  else machine

end Machine

namespace Run

def ofResult {α : Type} : Except Fault α → Run α
  | .ok value => pure value
  | .error fault => throw fault

def operation (result : Except RuntimeError Value) : Run Value :=
  ofResult (result.mapError .runtime)

def emit (event : Event) : Run Unit :=
  modify (Machine.record event)

def printLine (line : String) : Run Unit :=
  modify fun machine => { machine with output := machine.output ++ [line] }

def updateArena (change : Arena → Except Fault Arena) : Run Unit := do
  let machine ← get
  let arena ← ofResult (change machine.arena)
  set { machine with arena }

def pushFrame : Run Nat := do
  let machine ← get
  let (frame, arena) := machine.arena.push (some machine.frame)
  set { machine with arena }
  return frame

def enterFrame (frame : Nat) : Run Unit :=
  modify fun machine => { machine with frame }

/-- Runs `last` after `body`, also if `body` ends in a fault, which then goes on. -/
def ensuring {α : Type} (body : Run α) (last : Run Unit) : Run α := fun machine =>
  match body machine with
  | .ok value machine =>
      match last machine with
      | .ok _ machine => .ok value machine
      | .error fault machine => .error fault machine
  | .error fault machine =>
      match last machine with
      | .ok _ machine => .error fault machine
      | .error fault machine => .error fault machine

def inBlock (body : Run Unit) : Run Unit := do
  let outer := (← get).frame
  let inner ← pushFrame
  emit (.enterFrame inner outer)
  enterFrame inner
  ensuring body do
    enterFrame outer
    updateArena (·.release inner)
    emit (.releaseFrame inner)

end Run

open Run

/-- The value of an expression; the left operand is evaluated first, operands before their check. -/
def Expr.evaluate : Expr → Run Value
  | literal value => pure value
  | grouping inner => inner.evaluate
  | unary operator right => do
      let right ← right.evaluate
      operation (operator.applyUnary right)
  | binary left operator right => do
      let left ← left.evaluate
      let right ← right.evaluate
      operation (operator.applyBinary left right)
  | reference name => do
      let machine ← get
      ofResult (machine.arena.get machine.frame name)
  | assign name value => do
      let value ← value.evaluate
      let frame := (← get).frame
      updateArena (·.assign frame name value)
      emit (.assign name.lexeme value)
      return value
  | stray kind => throw (.unsupported .evaluate kind)

mutual

def Stmt.perform : Stmt → Run Unit
  | .expression value => do
      let _ ← value.evaluate
  | .print value => do
      let value ← value.evaluate
      printLine value.text
  | .declare name initial => do
      let value ← match initial with
        | none => pure .nil
        | some initial => initial.evaluate
      let frame := (← get).frame
      updateArena (·.define frame name.lexeme value)
      emit (.declare name.lexeme value frame)
  | .block body => inBlock (Stmt.executeAll body)
  | .stray kind => throw (.unsupported .execute kind)

/-- Executes statements one after the other; each is traced before it takes effect. -/
def Stmt.executeAll : List Stmt → Run Unit
  | [] => pure ()
  | statement :: rest => do
      emit (.execute statement.kind)
      statement.perform
      Stmt.executeAll rest

end

end LoxLang

import LoxLang.Scope.Bindings
import LoxLang.Fault

/-!
The arena of scope frames.

Frames are addressed by index, and each holds bindings and the index of the frame
that encloses it.  A name is looked up along the enclosing frames; declarations
always land in the frame they name.  Indices count from the end when negative,
and an enclosing index is looked at only when a lookup gets there.
-/

namespace LoxLang

structure Frame where
  enclosing : Option Int := none
  values : Bindings := {}
  deriving DecidableEq, Repr, Inhabited

structure Arena where
  frames : List Frame
  deriving DecidableEq, Repr, Inhabited

namespace Arena

def initial : Arena := ⟨[{}]⟩

def size (arena : Arena) : Nat :=
  arena.frames.length

def place? (arena : Arena) (index : Int) : Option Nat :=
  let place := if index < 0 then index + arena.size else index
  if 0 ≤ place ∧ place < arena.size then some place.toNat else none

def push (arena : Arena) (enclosing : Option Int) : Nat × Arena :=
  (arena.size, ⟨arena.frames ++ [{ enclosing := enclosing }]⟩)

@[simp] theorem size_initial : initial.size = 1 :=
  rfl

@[simp] theorem size_push (arena : Arena) (enclosing : Option Int) :
    (arena.push enclosing).2.size = arena.size + 1 := by
  simp [push, size]

/-- Drops the frames from an index on; the global frame does not go by its own index. -/
def release (arena : Arena) (index : Int) : Except Fault Arena :=
  if index = 0 then .error .globalRelease
  else if 0 < index then .ok ⟨arena.frames.take index.toNat⟩
  else .ok ⟨arena.frames.take (arena.size - index.natAbs)⟩

def define (arena : Arena) (index : Int) (name : String) (value : Value) : Except Fault Arena :=
  match arena.place? index with
  | none => .error .outOfRange
  | some place =>
      .ok ⟨arena.frames.modify place fun frame =>
        { frame with values := frame.values.insert name value }⟩

inductive Lookup where
  | bound (place : Nat) (value : Value)
  | unbound
  | dangling
  | endless
  deriving DecidableEq, Repr

/-- Walks outward from an index through at most `steps` frames to the first that binds the name. -/
def walk (arena : Arena) (name : String) : (steps : Nat) → Option Int → Lookup
  | _, none => .unbound
  | 0, some _ => .endless
  | steps + 1, some index =>
      match arena.place? index with
      | none => .dangling
      | some place =>
          match arena.frames[place]? with
          | none => .dangling
          | some frame =>
              match frame.values.get? name with
              | some value => .bound place value
              | none => walk arena name steps frame.enclosing

/--
The binding of a name as seen from a frame.  A walk of more steps than there are
frames has come to a frame twice, so it would never end.
-/
def lookup (arena : Arena) (index : Int) (name : String) : Lookup :=
  arena.walk name (arena.size + 1) (some index)

def Lookup.fault (name : Token) : Lookup → Fault
  | bound _ _ => .runtime ⟨.undefinedVariable, name⟩
  | unbound => .runtime ⟨.undefinedVariable, name⟩
  | dangling => .outOfRange
  | endless => .endless

def get (arena : Arena) (index : Int) (name : Token) : Except Fault Value :=
  match arena.lookup index name.lexeme with
  | .bound _ value => .ok value
  | other => .error (other.fault name)

def assign (arena : Arena) (index : Int) (name : Token) (value : Value) : Except Fault Arena :=
  match arena.lookup index name.lexeme with
  | .bound place _ =>
      .ok ⟨arena.frames.modify place fun frame =>
        { frame with values := frame.values.insert name.lexeme value }⟩
  | other => .error (other.fault name)

end Arena

end LoxLang

import Mathlib.Data.Finset.Insert
import LoxLang.Proofs.Execution.Steps

/-!
# Where a program can be stopped

The text of a program and the names bound at its start tell which names it looks up
and which operators it applies, in which order, and which map binds each of the names.
A run visits these sites one after the other, and no value has a part in what it finds.
-/

namespace LoxLang

namespace Resolution

structure Names where
  top : Finset String
  below : List (Finset String)

namespace Names

def under (names : Names) : Names :=
  ⟨∅, names.top :: names.below⟩

def declare (names : Names) (name : String) : Names :=
  { names with top := insert name names.top }

def find (name : String) : (top : Finset String) → (below : List (Finset String)) → Option Nat
  | top, below =>
      if name ∈ top then some below.length
      else
        match below with
        | [] => none
        | next :: more => find name next more

/-- The topmost set with the name, counted from the bottom of the stack. -/
def scope? (names : Names) (name : String) : Option Nat :=
  find name names.top names.below

end Names

/-- A place in a program where a run can be stopped. -/
inductive Site where
  | name (token : Token) (scope : Option Nat)
  | operator (token : Token)
  deriving DecidableEq, Repr

namespace Site

def unbound? : Site → Option Token
  | name token none => some token
  | _ => none

def isBound (site : Site) : Bool :=
  site.unbound?.isNone

end Site

def firstUnbound (sites : List Site) : Option Token :=
  sites.findSome? Site.unbound?

end Resolution

open Resolution

/-! ## In the text -/

def Expr.sites (names : Names) : Expr → List Site
  | assign name value => value.sites names ++ [.name name (names.scope? name.lexeme)]
  | binary left operator right => left.sites names ++ right.sites names ++ [.operator operator]
  | grouping inner => inner.sites names
  | literal _ => []
  | unary operator right => right.sites names ++ [.operator operator]
  | reference name => [.name name (names.scope? name.lexeme)]
  | stray _ => []

def Stmt.binding (names : Names) : Stmt → Names
  | declare name _ => names.declare name.lexeme
  | _ => names

mutual

def Stmt.sites (names : Names) : Stmt → List Site
  | .block body => Stmt.allSites names.under body
  | .expression value => value.sites names
  | .print value => value.sites names
  | .declare _ none => []
  | .declare _ (some initial) => initial.sites names
  | .stray _ => []

def Stmt.allSites (names : Names) : List Stmt → List Site
  | [] => []
  | first :: rest => first.sites names ++ Stmt.allSites (first.binding names) rest

end

/-! ## In a run -/

def Machine.scope? (machine : Machine) (name : String) : Option Nat :=
  match machine.arena.lookup machine.frame name with
  | .bound place _ => some place
  | _ => none

namespace Resolution

/-- What is visited with the machine that a run ends on, unless it faults. -/
def behind {α : Type} (ended : EStateM.Result Fault Machine α) (visits : Machine → List Site) :
    List Site :=
  match ended with
  | .ok _ machine => visits machine
  | .error _ _ => []

end Resolution

def Expr.visits : Expr → Machine → List Site
  | assign name value, machine =>
      value.visits machine ++ behind (value.evaluate machine) fun after =>
        [.name name (after.scope? name.lexeme)]
  | binary left operator right, machine =>
      left.visits machine ++ behind (left.evaluate machine) fun middle =>
        right.visits middle ++ behind (right.evaluate middle) fun _ => [.operator operator]
  | grouping inner, machine => inner.visits machine
  | literal _, _ => []
  | unary operator right, machine =>
      right.visits machine ++ behind (right.evaluate machine) fun _ => [.operator operator]
  | reference name, machine => [.name name (machine.scope? name.lexeme)]
  | stray _, _ => []

mutual

def Stmt.visits : Stmt → Machine → List Site
  | .block body, machine => Stmt.allVisits body machine.enterBlock
  | .expression value, machine => value.visits machine
  | .print value, machine => value.visits machine
  | .declare _ none, _ => []
  | .declare _ (some initial), machine => initial.visits machine
  | .stray _, _ => []

def Stmt.allVisits : List Stmt → Machine → List Site
  | [], _ => []
  | first :: rest, machine =>
      let traced := machine.record (.execute first.kind)
      first.visits traced ++ behind (first.perform traced) fun middle => Stmt.allVisits rest middle

end

end LoxLang

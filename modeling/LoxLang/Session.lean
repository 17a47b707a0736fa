import LoxLang.Syntax.Listing
import LoxLang.Syntax.Program
import LoxLang.Execution.Machine

/-!
Sessions: several sources or trees run one after the other on one machine.

Globals persist from step to step, also past an error.  A step answers with a
result or a fault, and with what it printed and traced; the report holds the
diagnostics of the last step that cleared it and of those after it.
-/

namespace LoxLang

structure Session where
  machine : Machine := {}
  report : Report := {}
  deriving Repr

namespace Session

def start (level : Int) : Session :=
  { machine := { level } }

def listening (session : Session) : Session :=
  { session with report := { session.report with listens := true } }

def quiet (session : Session) : Session :=
  { session with machine := { session.machine with output := [], trace := [] } }

def clear (session : Session) : Session :=
  { session with report := session.report.clear }

def reporting (session : Session) (diagnostics : List Diagnostic) : Session :=
  { session with report := session.report.addAll diagnostics }

def printing (session : Session) (line : String) : Session :=
  { session with machine := { session.machine with output := session.machine.output ++ [line] } }

/--
Runs statements until one faults.  A runtime error is traced and reported and
makes the answer `false`; any other fault is passed on.
-/
def interpret (statements : List Stmt) (session : Session) : Except Fault Bool × Session :=
  match Stmt.executeAll statements session.machine with
  | .ok _ machine => (.ok true, { session with machine })
  | .error (.runtime error) machine =>
      (.ok false,
        { machine := machine.record (.runtimeError error)
          report := session.report.add error.diagnostic })
  | .error fault machine => (.error fault, { session with machine })

def run (source : String) (session : Session) : Except Fault Bool × Session :=
  let program := Program.ofSource source
  let session := session.clear.reporting program.diagnostics
  if session.report.hadError then (.ok false, session)
  else session.interpret program.statements

def list (source : String) (session : Session) : Except Fault Unit × Session :=
  let leading := LeadingExpr.ofSource source
  let session := session.clear.reporting leading.diagnostics
  match leading.node with
  | none => (.ok (), session)
  | some node =>
      if session.report.hadError then (.ok (), session)
      else
        match node.listing with
        | .ok listing => (.ok (), session.printing listing)
        | .error kind => (.error (.unsupported .print kind), session)

/-- Runs what could be read of a source, diagnostics or not; earlier diagnostics are kept. -/
def force (source : String) (session : Session) : Except Fault Bool × Session :=
  let program := Program.ofSource source
  (session.reporting program.diagnostics).interpret program.statements

def evaluate (node : Expr) (session : Session) : Except Fault Value × Session :=
  match node.evaluate session.machine with
  | .ok value machine => (.ok value, { session with machine })
  | .error fault machine => (.error fault, { session with machine })

inductive Step where
  | run (source : String)
  /-- Runs a source in a new session and drops that. -/
  | fresh (source : String)
  | list (source : String)
  | force (source : String)
  | interpret (statements : List Stmt)
  | evaluate (node : Expr)
  deriving Repr

inductive Result where
  | nothing
  | completed (whole : Bool)
  | value (value : Value)
  | diagnostics (diagnostics : List Diagnostic)
  deriving Repr

structure Answer where
  result : Except Fault Result
  output : List String
  trace : List Event

def answer (result : Except Fault Result) (session : Session) : Answer × Session :=
  (⟨result, session.machine.output, session.machine.trace⟩, session)

def step (step : Step) (session : Session) : Answer × Session :=
  let session := session.quiet
  match step with
  | .run source =>
      let (result, session) := session.run source
      answer (result.map fun _ => .nothing) session
  | .fresh source =>
      let (result, other) := (start 0).run source
      (⟨result.map fun _ => .diagnostics other.report.held, other.machine.output,
        other.machine.trace⟩, session)
  | .list source =>
      let (result, session) := session.list source
      answer (result.map fun _ => .nothing) session
  | .force source =>
      let (result, session) := session.force source
      answer (result.map .completed) session
  | .interpret statements =>
      let (result, session) := session.interpret statements
      answer (result.map .completed) session
  | .evaluate node =>
      let (result, session) := session.evaluate node
      answer (result.map .value) session

def steps (session : Session) : List Step → List (Answer × Session)
  | [] => []
  | next :: rest =>
      let taken := session.step next
      taken :: taken.2.steps rest

end Session

end LoxLang

import LoxLang.Session
import LoxLang.Text.Lines
import LoxLang.Command.Arguments
import LoxLang.Command.Outcome

/-!
The command that runs Lox programs: a script, or the lines of a prompt.

Diagnostics go to the error output.  A script that cannot be found or read ends
with status 66, before anything runs; else the status tells how the script went.
The prompt runs every line in the same session and always ends with status 0.
With tracing on, the trace goes to a file, which is emptied before the script is
read, or to the error output if the file's name is empty.
-/

namespace LoxLang

namespace Runner

structure Settings where
  verbosity : Nat := 0
  traceFile : String := "debug.txt"
  listing : Bool := false
  script : Option String := none
  deriving DecidableEq, Repr, Inhabited

def interface : Interface Settings where
  program := "lox"
  usage := "usage: lox [-h] [-v] [--debug-file DEBUG_FILE] [--ast] [script]"
  help := Lines.join
    ["usage: lox [-h] [-v] [--debug-file DEBUG_FILE] [--ast] [script]",
      "",
      "Lox language interpreter",
      "",
      "positional arguments:",
      "  script                Lox script to run; omit for an interactive prompt",
      "",
      "options:",
      "  -h, --help            show this help message and exit",
      "  -v                    increase debug verbosity (can be repeated)",
      "  --debug-file DEBUG_FILE",
      "                        file receiving debug output (default: debug.txt)",
      "  --ast                 print the parsed expression tree instead of running"]
  flags :=
    [⟨["-h", "--help"], .help⟩,
      ⟨["-v"], .set fun settings => { settings with verbosity := settings.verbosity + 1 }⟩,
      ⟨["--debug-file"], .take fun path settings => { settings with traceFile := path }⟩,
      ⟨["--ast"], .set fun settings => { settings with listing := true }⟩]
  positional := "script"
  isRequired := false
  store := fun path settings => { settings with script := some path }

inductive TraceTarget where
  | nowhere
  | errorOutput
  | file (place : List String)
  deriving DecidableEq, Repr

structure Console where
  settings : Settings
  target : TraceTarget
  tree : FileTree
  session : Session
  output : String := ""
  errors : String := ""
  trace : String := ""

namespace Console

/-- Prepares a command; the trace file is emptied. -/
def start (settings : Settings) (tree : FileTree) : Except PathError Console := do
  let session := (Session.start settings.verbosity).listening
  if settings.verbosity = 0 then return { settings, target := .nowhere, tree, session }
  else if settings.traceFile = "" then return { settings, target := .errorOutput, tree, session }
  else
    let place ← tree.writable settings.traceFile
    return { settings, target := .file place, tree := tree.write place "", session }

def write (console : Console) (text : String) : Console :=
  { console with output := console.output ++ text }

def complain (console : Console) (text : String) : Console :=
  { console with errors := console.errors ++ text }

def stepFor (console : Console) (source : String) : Session.Step :=
  if console.settings.listing then .list source else .run source

/-- Runs a source, or prints its tree; the diagnostics are those that are heard meanwhile. -/
def enter (console : Console) (source : String) : Console :=
  let (answer, session) := console.session.step (console.stepFor source)
  let trace := Lines.join (answer.trace.map Event.text)
  let shown := if console.target = .errorOutput then trace else ""
  let heard := console.session.report.heardSince session.report
  let diagnostics := Lines.join (heard.map Diagnostic.text)
  { console with
    session
    output := console.output ++ Lines.join answer.output
    errors := console.errors ++ shown ++ diagnostics
    trace := console.trace ++ trace }

def close (console : Console) (status : Nat) : CommandOutcome :=
  { ending := .exit status
    output := console.output
    errors := console.errors
    tree := match console.target with
      | .file place => console.tree.write place console.trace
      | _ => console.tree }

def unreadable (console : Console) (script reason : String) : CommandOutcome :=
  let complaint := "Error: cannot read " ++ Path.normalize script ++ ": " ++ reason ++ "\n"
  (console.complain complaint).close 66

def runScript (console : Console) (script : String) : CommandOutcome :=
  match console.tree.lookup script with
  | none => console.unreadable script (PathError.missing.message (Path.normalize script))
  | some .directory =>
      console.unreadable script (PathError.isDirectory.message (Path.normalize script))
  | some (.file bytes) =>
      match Utf8.decode bytes with
      | .error error => console.unreadable script error.message
      | .ok text =>
          let console := console.enter (String.ofList (Lines.unify text))
          console.close console.session.report.exitCode

def answer (console : Console) (line : List Char) : Console :=
  (console.write "> ").enter (String.ofList line)

def runPrompt (console : Console) (input : StandardInput) : CommandOutcome :=
  ((input.lines.foldl answer console).write "> \n").close 0

end Console

def lacksScript (settings : Settings) (tree : FileTree) : Option String :=
  settings.script.filter fun script => (tree.lookup script).isNone

def run (arguments : List String) (tree : FileTree) (input : StandardInput) : CommandOutcome :=
  match interface.parse {} arguments with
  | .error stop => .ofStop interface stop tree
  | .ok settings =>
      match lacksScript settings tree with
      | some script =>
          { ending := .exit 66, errors := "Error: file " ++ script ++ " not found\n", tree }
      | none =>
          match Console.start settings tree with
          | .error error => { ending := .failed error settings.traceFile, tree }
          | .ok console =>
              match settings.script with
              | some script => console.runScript script
              | none => console.runPrompt input

end Runner

end LoxLang

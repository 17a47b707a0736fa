import LoxLang.Proofs.Command.TraceFile
import LoxLang.Proofs.Joining.Sessions
import LoxLang.Proofs.Text.Lines

/-!
# The prompt

Without a script the command runs the lines of its input one after the other in one
session.  A line with mistakes leaves no mark on the session but its diagnostics, which the
next line forgets, so that the other lines do the same with it and without it.

The lines are those of the input as its stream ends them.  With universal newlines carriage
returns are line ends too; without, they are blanks in a line.
-/

namespace LoxLang

open Scoping Frames

/-! ## What a line does -/

def lineMistakes (line : List Char) : List Diagnostic :=
  (Program.ofSource (String.ofList line)).diagnostics

/--
What running a line answers and leaves, by the rules, when the globals are given: the
mistakes of the line and the globals as they were, or what its program prints, the error it
stops at if there is one, and the globals as they are there.
-/
inductive Replies (globals : Bindings) (line : List Char) (taken : Session.Answer × Session) :
    Bindings → Prop
  | rejected :
      lineMistakes line ≠ [] → taken.1.output = [] → taken.2.report.held = lineMistakes line →
      Represents ⟨globals, []⟩ taken.2.machine → Replies globals line taken globals
  | ran {globals' error} :
      lineMistakes line = [] →
      Executes ⟨globals, []⟩ (Program.ofSource (String.ofList line)).statements ⟨globals', []⟩
        taken.1.output error →
      taken.2.report.held = (error.map RuntimeError.diagnostic).toList →
      Represents ⟨globals', []⟩ taken.2.machine → Replies globals line taken globals'

theorem Replies.represents {globals globals' : Bindings} {line : List Char}
    {taken : Session.Answer × Session} (h : Replies globals line taken globals') :
    Represents ⟨globals', []⟩ taken.2.machine := by
  cases h with
  | rejected _ _ _ h => exact h
  | ran _ _ _ h => exact h

namespace Session

end Session

namespace Runner

open Interface

/-! ## The command without a script -/

def between (value : Value) (output : List String) (held : List Diagnostic) : Session where
  machine := { arena := ⟨[{ values := ⟨[("a", value)]⟩ }]⟩, output, level := 0 }
  report := { held }

end Runner

end LoxLang

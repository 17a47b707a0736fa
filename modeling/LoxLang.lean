import LoxLang.Main
import LoxLang.Command.NodeModule
import LoxLang.Proofs.Lexing.Decomposition
import LoxLang.Proofs.Syntax.Programs
import LoxLang.Proofs.Syntax.WellFormed
import LoxLang.Proofs.Lockstep.Trees
import LoxLang.Proofs.Lockstep.Expressions
import LoxLang.Proofs.Lockstep.Declarations
import LoxLang.Proofs.Lockstep.Runs
import LoxLang.Proofs.Recovery.Containment
import LoxLang.Proofs.Scoping.Agreement
import LoxLang.Proofs.Frames.Sessions
import LoxLang.Proofs.Outcome.NoFaults
import LoxLang.Proofs.Outcome.Runs
import LoxLang.Proofs.Joining.Sources
import LoxLang.Proofs.Joining.Programs
import LoxLang.Proofs.Joining.Sessions
import LoxLang.Proofs.Resolution.Undefined
import LoxLang.Proofs.Tracing.Sessions
import LoxLang.Proofs.Layout.Programs
import LoxLang.Proofs.Command.TraceFile
import LoxLang.Proofs.Wrapping.Overlay
import LoxLang.Proofs.Wrapping.Programs
import LoxLang.Proofs.Command.Scripts
import LoxLang.Proofs.Command.Prompt
import LoxLang.Proofs.NodeDefinition.Language
import LoxLang.Proofs.NodeDefinition.Lexing
import LoxLang.Proofs.NodeDefinition.Readers
import LoxLang.Proofs.NodeDefinition.Agreement
import LoxLang.Proofs.NodeDefinition.Definitions
import LoxLang.Proofs.Effects.Runs
import LoxLang.Proofs.Syntax.Leading
import LoxLang.Proofs.Recovery.Blame
import LoxLang.Proofs.Cursor.Programs
import LoxLang.Proofs.Scoping.Lookups
import LoxLang.Proofs.Frames.Reachable
import LoxLang.Proofs.Lexing.Isolation
import LoxLang.Proofs.NodeDefinition.Outlines
import LoxLang.Proofs.Syntax.Listing
import LoxLang.Proofs.Number.Quotient
import LoxLang.Proofs.Number.ReadBack

import LoxLang.Command.Arguments
import LoxLang.Command.FileTree

/-!
How a command ends, what it wrote, and the files after it.
-/

namespace LoxLang

inductive CommandEnd where
  | exit (status : Nat)
  | returned
  /-- A file could not be opened for writing, and nothing handles that. -/
  | failed (error : PathError) (path : String)
  deriving DecidableEq, Repr, Inhabited

structure CommandOutcome where
  ending : CommandEnd
  output : String := ""
  errors : String := ""
  tree : FileTree
  deriving DecidableEq, Repr, Inhabited

namespace CommandOutcome

def ofStop {σ : Type} (interface : Interface σ) (stop : ArgumentStop) (tree : FileTree) :
    CommandOutcome :=
  match stop with
  | .help => { ending := .exit 0, output := interface.help, tree }
  | .misuse message => { ending := .exit 2, errors := interface.misuseText message, tree }

end CommandOutcome

end LoxLang

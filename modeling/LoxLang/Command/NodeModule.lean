import LoxLang.Command.Outcome
import LoxLang.NodeDefinition.Module
import LoxLang.Text.Lines

/-!
The command that writes the module of node classes into a directory.
-/

namespace LoxLang

namespace NodeModule

structure Settings where
  directory : String := ""
  deriving DecidableEq, Repr, Inhabited

def interface : Interface Settings where
  program := "generate_ast"
  usage := "usage: generate_ast [-h] output_dir"
  help := Lines.join
    ["usage: generate_ast [-h] output_dir",
      "",
      "Generate the Lox AST node module",
      "",
      "positional arguments:",
      "  output_dir  directory that receives ast.py",
      "",
      "options:",
      "  -h, --help  show this help message and exit"]
  flags := [⟨["-h", "--help"], .help⟩]
  positional := "output_dir"
  isRequired := true
  store := fun path settings => { settings with directory := path }

def builtInText : String :=
  match NodeFamily.moduleText NodeFamily.builtIn with
  | .ok text => text
  | .error _ => ""

def run (arguments : List String) (tree : FileTree) : CommandOutcome :=
  match interface.parse {} arguments with
  | .error stop => .ofStop interface stop tree
  | .ok settings =>
      if tree.lookup settings.directory ≠ some .directory then
        let message := Path.normalize settings.directory ++ " is not a directory"
        .ofStop interface (.misuse message) tree
      else
        let path := Path.append settings.directory "ast.py"
        match tree.writable path with
        | .error error => { ending := .failed error path, tree }
        | .ok place =>
            { ending := .returned, output := path ++ "\n", tree := tree.write place builtInText }

end NodeModule

end LoxLang

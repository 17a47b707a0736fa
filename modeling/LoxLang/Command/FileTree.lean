import LoxLang.Text.Quoted
import LoxLang.Text.Utf8

/-!
The files a command sees, and paths to them.

A file tree is a snapshot: files and directories by their paths from the root,
and the directory that the command was started in.  Paths are followed component
by component.
-/

namespace LoxLang

inductive FileEntry where
  | file (bytes : List UInt8)
  | directory
  deriving DecidableEq, Repr, Inhabited

/-- The entries of a file tree; the root, the working directory and those above it are always
there and need no entry. -/
structure FileTree where
  entries : List (List String × FileEntry) := []
  working : List String := []
  deriving DecidableEq, Repr, Inhabited

inductive PathError where
  | missing
  | notDirectory
  | isDirectory
  deriving DecidableEq, Repr, Inhabited

def PathError.message (error : PathError) (path : String) : String :=
  let reason := match error with
    | missing => "[Errno 2] No such file or directory: "
    | notDirectory => "[Errno 20] Not a directory: "
    | isDirectory => "[Errno 21] Is a directory: "
  reason ++ Quoted.quote path

namespace Path

def components (path : String) : List String :=
  (path.toList.splitOn '/').map String.ofList

def isAbsolute (path : String) : Bool :=
  path.toList.head? = some '/'

/-- Whether a component leads to where it stands. -/
def stays (part : String) : Bool :=
  part = "" || part = "."

def steps (path : String) : List String :=
  (components path).filter fun part => !stays part

/-- The slashes that an absolute path starts with; just two are kept, any other count is one. -/
def root (path : String) : String :=
  match (path.toList.takeWhile (· = '/')).length with
  | 0 => ""
  | 2 => "//"
  | _ => "/"

def render (root : String) (parts : List String) : String :=
  let text := root ++ "/".intercalate parts
  if text = "" then "." else text

/-- A path without the components that stay where they are; a step to the parent is kept. -/
def normalize (path : String) : String :=
  render (root path) (steps path)

def append (directory name : String) : String :=
  render (root directory) (steps directory ++ [name])

end Path

namespace FileTree

def find? (tree : FileTree) (path : List String) : Option FileEntry :=
  if path.isPrefixOf tree.working then some .directory else tree.entries.lookup path

def descend (tree : FileTree) (path : List String) (part : String) :
    Except PathError (List String) :=
  if tree.find? path ≠ some .directory then .error .notDirectory
  else if Path.stays part then .ok path
  else if part = ".." then .ok path.dropLast
  else if (tree.find? (path ++ [part])).isSome then .ok (path ++ [part])
  else .error .missing

def follow (tree : FileTree) (absolute : Bool) (parts : List String) :
    Except PathError (List String) :=
  parts.foldlM tree.descend (if absolute then [] else tree.working)

def lookup (tree : FileTree) (path : String) : Option FileEntry :=
  match tree.follow (Path.isAbsolute path) (Path.steps path) with
  | .ok place => tree.find? place
  | .error _ => none

/-- Where writing to a path goes.  A slash at its end asks for a directory. -/
def writable (tree : FileTree) (path : String) : Except PathError (List String) := do
  if path = "" then throw .missing
  let parts := Path.components path
  let trimmed := (parts.reverse.dropWhile (· = "")).reverse
  let name := trimmed.getLastD ""
  let parent ← tree.follow (Path.isAbsolute path) trimmed.dropLast
  if tree.find? parent ≠ some .directory then throw .notDirectory
  let place := parent ++ [name]
  if trimmed.length < parts.length || Path.stays name || name = ".." ||
      tree.find? place = some .directory then
    throw .isDirectory
  return place

def put (path : List String) (entry : FileEntry) :
    List (List String × FileEntry) → List (List String × FileEntry)
  | [] => [(path, entry)]
  | (other, old) :: rest =>
      if other = path then (path, entry) :: rest else (other, old) :: put path entry rest

def write (tree : FileTree) (place : List String) (text : String) : FileTree :=
  { tree with entries := put place (.file (Utf8.encode text)) tree.entries }

def add (tree : FileTree) (path : String) (entry : FileEntry) : FileTree :=
  let place := tree.working ++ Path.steps path
  let above := (List.range place.length).map place.take
  let missing := above.filter fun parent => (tree.find? parent).isNone
  let entries := missing.foldl (fun entries parent => put parent .directory entries) tree.entries
  { tree with entries := put place entry entries }

/--
The files below the working directory that another tree does not have with the
same content, in the order of their paths.
-/
def changes (before later : FileTree) : List (String × List UInt8) :=
  let changed := later.entries.filterMap fun (path, entry) =>
    match entry with
    | .directory => none
    | .file bytes =>
        if !later.working.isPrefixOf path || before.find? path = some (.file bytes) then none
        else some ("/".intercalate (path.drop later.working.length), bytes)
  changed.mergeSort fun a b => decide (a.1 ≤ b.1)

end FileTree

end LoxLang

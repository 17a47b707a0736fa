import LoxLang.Command.Runner

/-!
The command as a program.  What it does is decided elsewhere; here files are looked up
before it and written after it, and lines are read and printed.
-/

namespace LoxLang

namespace Main

def rootPath (place : List String) : String :=
  Path.render "/" place

def entryAt (place : List String) : IO (Option FileEntry) := do
  try
    let bytes ← IO.FS.readBinFile (rootPath place)
    return some (.file bytes.toList)
  catch error =>
    match error with
    | .inappropriateType _ 21 _ => return some .directory
    | _ => return none

/-- Adds what is on the way along a path. -/
def survey (tree : FileTree) (path : String) : IO FileTree := do
  let mut tree := tree
  let mut place := if Path.isAbsolute path then [] else tree.working
  for part in Path.steps path do
    place := if part = ".." then place.dropLast else place ++ [part]
    if let some entry ← entryAt place then
      tree := { tree with entries := FileTree.put place entry tree.entries }
  return tree

def surveyAll (paths : List String) : IO FileTree := do
  let working := Path.steps (← IO.currentDir).toString
  paths.foldlM survey { working }

def writeBack (before later : FileTree) : IO Unit :=
  for (place, entry) in later.entries do
    match entry with
    | .directory => pure ()
    | .file bytes =>
        if before.find? place ≠ some entry then
          IO.FS.writeBinFile (rootPath place) (ByteArray.mk bytes.toArray)

def put (output errors : String) : IO Unit := do
  (← IO.getStdout).putStr output
  (← IO.getStdout).flush
  (← IO.getStderr).putStr errors

def conclude (before : FileTree) (outcome : CommandOutcome) : IO UInt32 := do
  writeBack before outcome.tree
  put outcome.output outcome.errors
  match outcome.ending with
  | .exit status => return UInt32.ofNat status
  | .returned => return 0
  | .failed error path =>
      put "" (error.message path ++ "\n")
      return 1

partial def converse (console : Runner.Console) : IO Runner.Console := do
  put "> " ""
  let read ← (← IO.getStdin).getLine
  if read.isEmpty then
    put "\n" ""
    return console
  let line := String.ofList (read.toList.takeWhile (· ≠ '\n'))
  let console := Runner.Console.enter { console with output := "", errors := "" } line
  put console.output console.errors
  return ← converse console

def runPrograms (arguments : List String) : IO UInt32 := do
  match Runner.interface.parse {} arguments with
  | .error _ =>
      let tree ← surveyAll []
      conclude tree (Runner.run arguments tree {})
  | .ok settings =>
      let tree ← surveyAll (settings.traceFile :: settings.script.toList)
      match settings.script, Runner.Console.start settings tree with
      | none, .ok console =>
          writeBack tree console.tree
          let console ← converse console
          conclude console.tree ({ console with output := "", errors := "" }.close 0)
      | _, _ => conclude tree (Runner.run arguments tree {})

end Main

end LoxLang

def main (arguments : List String) : IO UInt32 :=
  LoxLang.Main.runPrograms arguments

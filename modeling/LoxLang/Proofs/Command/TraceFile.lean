import LoxLang.Proofs.Command.Arguments
import LoxLang.Proofs.Command.Files
import LoxLang.Proofs.Command.Sink
import LoxLang.Proofs.Tracing.Sessions

/-!
# A script with its trace in a file

A script that is run with tracing does what it does without, and the trace file is all
that changes, as long as the script is another file.  The trace file is emptied before
the script is read, so a script that is its own trace file is lost.
-/

namespace LoxLang.Runner

open Tracing

def scriptStep (levels : Nat) (text : List Char) : Session.Answer × Session :=
  (Session.start levels).step (.run (String.ofList (Lines.unify text)))

def scriptOutcome (script : String) (bytes : List UInt8) (tree : FileTree) : CommandOutcome :=
  match Utf8.decode bytes with
  | .error error =>
      { ending := .exit 66
        errors := "Error: cannot read " ++ Path.normalize script ++ ": " ++ error.message ++ "\n"
        tree }
  | .ok text =>
      { ending := .exit (scriptStep 0 text).2.report.exitCode
        output := Lines.join (scriptStep 0 text).1.output
        errors := Lines.join ((scriptStep 0 text).2.report.held.map Diagnostic.text)
        tree }

def scriptTrace (levels : Nat) (bytes : List UInt8) : String :=
  match Utf8.decode bytes with
  | .error _ => ""
  | .ok text => Lines.join ((scriptStep levels text).1.trace.map Event.text)

def TraceTarget.fill (target : TraceTarget) (trace : String) (tree : FileTree) : FileTree :=
  match target with
  | .file place => tree.write place trace
  | _ => tree

/-! ## Scripts in a new session -/

theorem scriptStep_eq (levels : Nat) (text : List Char) :
    (scriptStep levels text).1.output = (scriptStep 0 text).1.output ∧
      (scriptStep levels text).2.report = (scriptStep 0 text).2.report := by
  have hsame := fun levels : Int =>
    step_same (.run (String.ofList (Lines.unify text))) (start_alongside levels).quiet
  constructor
  · exact (hsame levels).output.trans (hsame 0).output.symm
  · exact (hsame levels).session.report.trans (hsame 0).session.report.symm

theorem close_enter_start (settings : Settings) (hlisting : settings.listing = false)
    {target : TraceTarget} (htarget : target ≠ .errorOutput) (tree : FileTree) (levels : Nat)
    (text : List Char) :
    let console : Console :=
      { settings, target, tree, session := (Session.start levels).listening }
    let final := console.enter (String.ofList (Lines.unify text))
    final.close final.session.report.exitCode =
      { ending := .exit (scriptStep 0 text).2.report.exitCode
        output := Lines.join (scriptStep 0 text).1.output
        errors := Lines.join ((scriptStep 0 text).2.report.held.map Diagnostic.text)
        tree :=
          target.fill (Lines.join ((scriptStep levels text).1.trace.map Event.text)) tree } := by
  intro console final
  let taken := console.session.step (console.stepFor (String.ofList (Lines.unify text)))
  have hplain : scriptStep levels text = (taken.1, taken.2.unheard) := by
    have hstep : console.stepFor (String.ofList (Lines.unify text)) =
        .run (String.ofList (Lines.unify text)) := by
      simp [Console.stepFor, console, hlisting]
    have hunheard := Session.step_unheard (Session.start levels).listening
      (.run (String.ofList (Lines.unify text)))
    simp only [taken, hstep]
    exact hunheard
  obtain ⟨houtput, hreport⟩ := scriptStep_eq levels text
  have hfinal := @Console.enter_eq console rfl htarget (String.ofList (Lines.unify text))
  rw [← houtput, ← hreport, hplain]
  simp only [final, hfinal, Console.close]
  cases target with
  | errorOutput => exact absurd rfl htarget
  | nowhere => simp [console, taken, TraceTarget.fill]
  | file place => simp [console, taken, TraceTarget.fill]

/-- Where the trace goes makes no difference unless that is the error output. -/
theorem runScript_start (settings : Settings) (hlisting : settings.listing = false)
    {target : TraceTarget} (htarget : target ≠ .errorOutput) {tree : FileTree} {script : String}
    {bytes : List UInt8} (hlookup : tree.lookup script = some (.file bytes)) (levels : Nat) :
    Console.runScript
        { settings, target, tree, session := (Session.start levels).listening } script =
      scriptOutcome script bytes (target.fill (scriptTrace levels bytes) tree) := by
  unfold Console.runScript scriptOutcome scriptTrace
  rw [hlookup]
  dsimp only
  cases hdecode : Utf8.decode bytes with
  | error error =>
      cases target <;> simp [Console.unreadable, Console.complain, Console.close, TraceTarget.fill]
  | ok text => exact close_enter_start settings hlisting htarget tree levels text

/-! ## Whole commands -/

section

variable {tree : FileTree} {script : String}

theorem run_of_start {arguments : List String} {settings : Settings}
    (hparse : interface.parse {} arguments = .ok settings) (hscript : settings.script = some script)
    {entry : FileEntry} (hlookup : tree.lookup script = some entry) {console : Console}
    (hstart : Console.start settings tree = .ok console) (input : StandardInput) :
    run arguments tree input = console.runScript script := by
  have hfound : lacksScript settings tree = none := by
    rw [lacksScript, hscript]
    simp [hlookup]
  unfold run
  simp only [hparse, hfound, hstart, hscript]

theorem start_silent (settings : Settings) (h : settings.verbosity = 0) :
    Console.start settings tree =
      .ok { settings, target := .nowhere, tree, session := (Session.start 0).listening } := by
  unfold Console.start
  rw [if_pos h, h]
  rfl

theorem start_tracing {settings : Settings} (hlevels : settings.verbosity ≠ 0)
    {place : List String} (hplace : tree.writable settings.traceFile = .ok place) :
    Console.start settings tree =
      .ok { settings, target := .file place, tree := tree.write place ""
            session := (Session.start settings.verbosity).listening } := by
  have hname : settings.traceFile ≠ "" := by
    intro h
    rw [h] at hplace
    cases hplace
  unfold Console.start
  rw [if_neg hlevels, if_neg hname, hplace]
  rfl

theorem run_script (hscript : interface.classify script = .ok .positional) {bytes : List UInt8}
    (hlookup : tree.lookup script = some (.file bytes)) (input : StandardInput) :
    run [script] tree input = scriptOutcome script bytes tree := by
  have htarget : TraceTarget.nowhere ≠ .errorOutput := by simp
  rw [run_of_start (parse_script hscript) rfl hlookup (start_silent _ rfl)]
  exact runScript_start _ rfl htarget hlookup 0

theorem run_tracing {arguments : List String} {levels : Nat} {traceFile : String}
    (h : AsksForTracing arguments levels traceFile script) {entry : FileEntry}
    (hlookup : tree.lookup script = some entry) {place : List String}
    (hplace : tree.writable traceFile = .ok place) {bytes : List UInt8}
    (hread : (tree.write place "").lookup script = some (.file bytes)) (input : StandardInput) :
    run arguments tree input =
      scriptOutcome script bytes
        ((tree.write place "").write place (scriptTrace levels bytes)) := by
  have htarget : TraceTarget.file place ≠ .errorOutput := by simp
  rw [run_of_start h.parse rfl hlookup (start_tracing h.positive hplace)]
  exact runScript_start _ rfl htarget hread levels

end

/-! ## The trace file and the script -/

/-- The command does the same, and of all files it touches the one at the place alone. -/
structure AddsFile (tree : FileTree) (place : List String) (plain traced : CommandOutcome) :
    Prop where
  ending : traced.ending = plain.ending
  output : traced.output = plain.output
  errors : traced.errors = plain.errors
  untouched : plain.tree = tree
  others : ∀ path, path ≠ place → traced.tree.find? path = tree.find? path

theorem scriptOutcome_addsFile (script : String) (bytes : List UInt8) {tree traced : FileTree}
    {place : List String} (h : ∀ path, path ≠ place → traced.find? path = tree.find? path) :
    AddsFile tree place (scriptOutcome script bytes tree) (scriptOutcome script bytes traced) := by
  unfold scriptOutcome
  cases Utf8.decode bytes with
  | error error => exact ⟨rfl, rfl, rfl, rfl, h⟩
  | ok text => exact ⟨rfl, rfl, rfl, rfl, h⟩

theorem tree_scriptOutcome (script : String) (bytes : List UInt8) (tree : FileTree) :
    (scriptOutcome script bytes tree).tree = tree := by
  unfold scriptOutcome
  split <;> rfl

/--
Tracing into another file than the script adds that file and changes nothing else.  The
script that is run is the one that was there when the command was started.
-/
theorem tracing_adds_file {tree : FileTree} {arguments : List String} {levels : Nat}
    {traceFile script : String} (h : AsksForTracing arguments levels traceFile script)
    {bytes : List UInt8} (hscript : tree.lookup script = some (.file bytes))
    {place : List String} (hplace : tree.writable traceFile = .ok place)
    (hapart : tree.follow (Path.isAbsolute script) (Path.steps script) ≠ .ok place)
    (input : StandardInput) :
    AddsFile tree place (run [script] tree input) (run arguments tree input) ∧
      run [script] tree input = scriptOutcome script bytes tree ∧
      (run arguments tree input).tree.find? place =
        some (.file (Utf8.encode (scriptTrace levels bytes))) ∧
      (run arguments tree input).tree.lookup script = some (.file bytes) := by
  have hfree := FileTree.find?_of_writable hplace
  obtain ⟨found, hfollow, -⟩ := FileTree.exists_follow_of_lookup hscript
  have hother : found ≠ place := by
    rintro rfl
    exact hapart hfollow
  -- The script is read after the trace file was emptied, and is still what it was.
  have hread : (tree.write place "").lookup script = some (.file bytes) := by
    rw [FileTree.lookup_write hfree "" hfollow hother, hscript]
  have hemptied := FileTree.isFile_of_write hfree ""
  have hplain := run_script h.script_positional hscript input
  have htraced := run_tracing h hscript hplace hread input
  rw [hplain, htraced, tree_scriptOutcome]
  refine ⟨scriptOutcome_addsFile _ _ ?_, rfl, ?_, ?_⟩
  · intro path hpath
    rw [FileTree.find?_write hemptied, if_neg hpath, FileTree.find?_write hfree, if_neg hpath]
  · rw [FileTree.find?_write hemptied, if_pos rfl]
  · rw [FileTree.lookup_write hemptied _ (FileTree.follow_write hfree "" hfollow) hother, hread]

def oneScript (name : String) : FileTree where
  entries := [([name], .file (Utf8.encode "print nil;\n"))]

theorem tracing_adds_file_bundled :
    let tree := oneScript "hello.lox"
    let arguments := ["-vv", "-v", "--debug-file", "log.txt", "hello.lox"]
    AsksForTracing arguments 3 "log.txt" "hello.lox" ∧
      tree.lookup "hello.lox" = some (.file (Utf8.encode "print nil;\n")) ∧
      tree.writable "log.txt" = .ok ["log.txt"] ∧
      tree.follow (Path.isAbsolute "hello.lox") (Path.steps "hello.lox") ≠ .ok ["log.txt"] ∧
      AddsFile tree ["log.txt"] (run ["hello.lox"] tree {}) (run arguments tree {}) := by
  intro tree arguments
  have hasks : AsksForTracing arguments 3 "log.txt" "hello.lox" :=
    @AsksForTracing.named [1, 0] "log.txt" "hello.lox" (by simp) rfl rfl
  have hlookup : tree.lookup "hello.lox" = some (.file (Utf8.encode "print nil;\n")) := rfl
  have hplace : tree.writable "log.txt" = .ok ["log.txt"] := rfl
  have hfollow : tree.follow (Path.isAbsolute "hello.lox") (Path.steps "hello.lox") =
      .ok ["hello.lox"] := rfl
  have hapart : tree.follow (Path.isAbsolute "hello.lox") (Path.steps "hello.lox") ≠
      .ok ["log.txt"] := by
    rw [hfollow]
    simp
  exact ⟨hasks, hlookup, hplace, hapart, (tracing_adds_file hasks hlookup hplace hapart {}).1⟩

/-! ## A script that is its own trace file -/

theorem scriptStep_nil (levels : Nat) :
    scriptStep levels [] = (⟨.ok .nothing, [], []⟩, Session.start levels) := by
  have hprogram : Program.ofSource (String.ofList (Lines.unify [])) = ⟨[], []⟩ := by
    with_unfolding_all rfl
  unfold scriptStep Session.step Session.run
  dsimp only
  rw [hprogram]
  rfl

theorem decode_encode_empty : Utf8.decode (Utf8.encode "") = .ok [] := by
  with_unfolding_all rfl

/-- Tracing into the script itself empties it, runs the empty program and reports success. -/
theorem tracing_empties_script {tree : FileTree} {arguments : List String} {levels : Nat}
    {traceFile script : String} (h : AsksForTracing arguments levels traceFile script)
    {bytes : List UInt8} (hscript : tree.lookup script = some (.file bytes))
    {place : List String} (hplace : tree.writable traceFile = .ok place)
    (hsame : tree.follow (Path.isAbsolute script) (Path.steps script) = .ok place)
    (input : StandardInput) :
    run arguments tree input =
        { ending := .exit 0, tree := (tree.write place "").write place "" } ∧
      (run arguments tree input).tree.lookup script = some (.file []) := by
  have hfree := FileTree.find?_of_writable hplace
  have hread := FileTree.lookup_write_self hfree "" hsame
  have hemptied := FileTree.isFile_of_write hfree ""
  have hrun : run arguments tree input =
      { ending := .exit 0, tree := (tree.write place "").write place "" } := by
    rw [run_tracing h hscript hplace hread input]
    simp only [scriptOutcome, scriptTrace, decode_encode_empty, scriptStep_nil]
    rfl
  have hnone : Utf8.encode "" = [] := by
    decide +kernel
  refine ⟨hrun, ?_⟩
  rw [hrun, ← hnone]
  exact FileTree.lookup_write_self hemptied "" (FileTree.follow_write hfree "" hsame)

theorem script_lost_with_default_trace_file :
    let tree := oneScript "debug.txt"
    tree.lookup "debug.txt" = some (.file (Utf8.encode "print nil;\n")) ∧
      tree.writable "debug.txt" = .ok ["debug.txt"] ∧
      (run ["debug.txt"] tree {}).output = "nil\n" ∧
      (run ["-v", "debug.txt"] tree {}).output = "" ∧
      (run ["-v", "debug.txt"] tree {}).ending = .exit 0 ∧
      (run ["-v", "debug.txt"] tree {}).tree.lookup "debug.txt" = some (.file []) := by
  intro tree
  have hpositional : interface.classify "debug.txt" = .ok .positional := rfl
  have hlookup : tree.lookup "debug.txt" = some (.file (Utf8.encode "print nil;\n")) := rfl
  have hplace : tree.writable "debug.txt" = .ok ["debug.txt"] := rfl
  have htraced : AsksForTracing ["-v", "debug.txt"] 1 "debug.txt" "debug.txt" :=
    @AsksForTracing.unnamed [0] "debug.txt" (by simp) hpositional
  have hdecode : Utf8.decode (Utf8.encode "print nil;\n") = .ok "print nil;\n".toList := by
    with_unfolding_all rfl
  have hscan : scan "print nil;\n" =
      ⟨⟨[.bare .wordPrint "print" 1, .bare .wordNil "nil" 1, .bare .semicolon ";" 1],
        .ending 2⟩, []⟩ := by
    with_unfolding_all rfl
  have hprogram : Program.ofSource "print nil;\n" = ⟨[.print (.literal .nil)], []⟩ := by
    rw [Program.ofSource, hscan]
    cbv
  have houtput : Lines.join (scriptStep 0 "print nil;\n".toList).1.output = "nil\n" := by
    have hsource : String.ofList (Lines.unify "print nil;\n".toList) = "print nil;\n" := by
      decide +kernel
    simp only [scriptStep, Session.step, Session.run, hsource, hprogram]
    rfl
  refine ⟨hlookup, hplace, ?_, ?_⟩
  · rw [run_script hpositional hlookup, scriptOutcome]
    simp only [hdecode]
    exact houtput
  · obtain ⟨hrun, hempty⟩ := tracing_empties_script htraced hlookup hplace rfl {}
    rw [hempty, hrun]
    exact ⟨rfl, rfl, rfl⟩

end LoxLang.Runner

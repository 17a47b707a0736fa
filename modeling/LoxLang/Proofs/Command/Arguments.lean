import Mathlib.Algebra.Ring.Nat
import Mathlib.Data.List.TakeWhile
import LoxLang.Command.Runner

/-!
# Asking for tracing

What the arguments of the command ask for when the flags for tracing, alone or several
behind one hyphen, stand in front of a script, with the name of a trace file or without.
-/

namespace LoxLang.Runner

open Interface

/-- The argument that asks for tracing once and so many times more. -/
def verbose (more : Nat) : String :=
  String.ofList ('-' :: 'v' :: List.replicate more 'v')

def Settings.tracingMore (settings : Settings) (levels : Nat) : Settings :=
  { settings with verbosity := settings.verbosity + levels }

/-! ## The flags -/

def helpFlag : Flag Settings :=
  ⟨["-h", "--help"], .help⟩

def verboseFlag : Flag Settings :=
  ⟨["-v"], .set fun settings => { settings with verbosity := settings.verbosity + 1 }⟩

def traceFileFlag : Flag Settings :=
  ⟨["--debug-file"], .take fun path settings => { settings with traceFile := path }⟩

def listingFlag : Flag Settings :=
  ⟨["--ast"], .set fun settings => { settings with listing := true }⟩

theorem names_interface :
    interface.names = [("-h", helpFlag), ("--help", helpFlag), ("-v", verboseFlag),
      ("--debug-file", traceFileFlag), ("--ast", listingFlag)] :=
  rfl

theorem ofList_beq (text : List Char) (name : String) :
    (String.ofList text == name) = (text == name.toList) := by
  rw [Bool.eq_iff_iff, beq_iff_eq, beq_iff_eq]
  constructor
  · rintro rfl
    exact String.toList_ofList.symm
  · rintro rfl
    exact String.ofList_toList

theorem named?_verbose : interface.named? ['-', 'v'] = some verboseFlag := by
  rw [named?, names_interface]
  simp [List.lookup_cons]

theorem named?_bundle (letters : List Char) :
    interface.named? ('-' :: 'v' :: 'v' :: letters) = none := by
  rw [named?, names_interface]
  simp only [List.lookup_cons, ofList_beq]
  simp

theorem named?_traceFile : interface.named? "--debug-file".toList = some traceFileFlag := by
  rw [named?, names_interface]
  simp [List.lookup_cons]

theorem candidates_bundle (letters : List Char) :
    interface.candidates ('-' :: 'v' :: 'v' :: letters) =
      [(['-', 'v'], verboseFlag, some ('v' :: letters))] := by
  simp [candidates, names_interface]

/-! ## What an argument is -/

theorem classify_verbose (more : Nat) :
    interface.classify (verbose more) = .ok (.flag verboseFlag ['-', 'v']
      (if more = 0 then none else some (List.replicate more 'v'))) := by
  unfold classify verbose
  rw [String.toList_ofList]
  cases more with
  | zero =>
      simp only [List.replicate_zero, named?_verbose]
      rfl
  | succ more =>
      -- A bundle is the name of no flag, and is read as the first flag with a text behind it.
      have hequals : cutEquals ('-' :: 'v' :: List.replicate (more + 1) 'v') =
          ('-' :: 'v' :: List.replicate (more + 1) 'v', none) := by
        have hnone : ('-' :: 'v' :: List.replicate (more + 1) 'v').dropWhile (· ≠ '=') = [] := by
          rw [List.dropWhile_eq_nil_iff]
          intro c hc
          simp only [List.mem_cons, List.mem_replicate] at hc
          rcases hc with rfl | rfl | ⟨-, rfl⟩ <;> decide
        rw [cutEquals, hnone]
      simp only [hequals]
      simp only [List.replicate_succ, named?_bundle, candidates_bundle]
      simp

theorem classify_traceFile :
    interface.classify "--debug-file" =
      .ok (.flag traceFileFlag "--debug-file".toList none) := by
  have hhead : "--debug-file".toList.head? = some '-' := rfl
  unfold classify
  simp only [hhead, named?_traceFile, ne_eq, not_true_eq_false, if_false]

theorem ne_separator {argument : String} (h : interface.classify argument = .ok .positional) :
    argument ≠ "--" := by
  rintro rfl
  have hnone : interface.named? ['-', '-'] = none := by
    rw [named?, names_interface]
    simp [List.lookup_cons]
  have hseveral : interface.candidates ['-', '-'] =
      [("--help".toList, helpFlag, none), ("--debug-file".toList, traceFileFlag, none),
        ("--ast".toList, listingFlag, none)] := by
    rw [candidates, names_interface]
    rfl
  have hcut : cutEquals ['-', '-'] = (['-', '-'], none) := rfl
  have htext : "--".toList = ['-', '-'] := rfl
  unfold classify at h
  simp only [htext, hnone, hseveral, hcut] at h
  cases h

/-! ## Reading arguments -/

def read (progress : Progress Settings) (arguments : List String) :
    Except ArgumentStop (Progress Settings) := do
  interface.consume progress (← interface.classifyAll arguments)

theorem foldlM_verbose (levels : Nat) (settings : Settings) :
    (List.replicate levels verboseFlag).foldlM (fun settings flag => flag.apply settings) settings =
      .ok (settings.tracingMore levels) := by
  induction levels generalizing settings with
  | zero => rfl
  | succ levels ih =>
      rw [List.replicate_succ, List.foldlM_cons]
      have hmore : (settings.tracingMore 1).tracingMore levels =
          settings.tracingMore (levels + 1) := by
        simp only [Settings.tracingMore, Nat.add_assoc, Nat.add_comm 1]
      change (List.replicate levels verboseFlag).foldlM _ (settings.tracingMore 1) = _
      rw [ih, hmore]

theorem unbundle_verbose (more : Nat) :
    interface.unbundle verboseFlag (List.replicate (more + 1) 'v') =
      .ok { plain := List.replicate (more + 2) verboseFlag } := by
  have hplain : verboseFlag.takesValue = false := rfl
  induction more with
  | zero =>
      simp only [List.replicate_succ, List.replicate_zero, unbundle, hplain, named?_verbose]
      rfl
  | succ more ih =>
      rw [List.replicate_succ, unbundle]
      simp only [hplain, named?_verbose, ih]
      rfl

theorem applyPlain_verbose (levels : Nat) (progress : Progress Settings) :
    applyPlain (List.replicate levels verboseFlag) progress =
      .ok { progress with settings := progress.settings.tracingMore levels } := by
  rw [applyPlain, foldlM_verbose]
  rfl

theorem consume_verbose (more : Nat) (progress : Progress Settings)
    (items : List (String × ArgumentForm Settings)) :
    interface.consume progress ((verbose more, .flag verboseFlag ['-', 'v']
        (if more = 0 then none else some (List.replicate more 'v'))) :: items) =
      interface.consume
        { progress with settings := progress.settings.tracingMore (more + 1) } items := by
  have happly := applyPlain_verbose (more + 1) progress
  rw [consume, List.any_cons]
  simp only [isFlag, Bool.true_or, Bool.not_true, Bool.false_eq_true, if_false]
  cases more with
  | zero =>
      change (applyPlain [verboseFlag] progress >>= fun progress =>
        interface.consume progress items) = _
      rw [List.replicate_one] at happly
      rw [happly]
      rfl
  | succ more =>
      have hattach : interface.attach verboseFlag ['-', 'v'] (List.replicate (more + 1) 'v') =
          .ok { plain := List.replicate (more + 2) verboseFlag } :=
        unbundle_verbose more
      rw [if_neg (Nat.succ_ne_zero more)]
      dsimp only
      rw [hattach]
      change (applyPlain (List.replicate (more + 2) verboseFlag) progress >>= fun progress =>
        interface.consume progress items) = _
      rw [happly]
      rfl

theorem consume_traceFile (path : String) (progress : Progress Settings)
    (items : List (String × ArgumentForm Settings)) :
    interface.consume progress (("--debug-file", .flag traceFileFlag "--debug-file".toList none) ::
        (path, .positional) :: items) =
      interface.consume
        { progress with settings := { progress.settings with traceFile := path } } items := by
  rw [consume, List.any_cons]
  simp only [isFlag, Bool.true_or, Bool.not_true, Bool.false_eq_true, if_false]
  rfl

theorem read_verbose (more : Nat) (progress : Progress Settings) (arguments : List String) :
    read progress (verbose more :: arguments) =
      read { progress with settings := progress.settings.tracingMore (more + 1) } arguments := by
  have hseparator : verbose more ≠ "--" := by
    intro h
    have hchars := congrArg String.toList h
    rw [verbose, String.toList_ofList] at hchars
    cases hchars
  unfold read
  rw [classifyAll, if_neg hseparator, classify_verbose]
  cases hitems : interface.classifyAll arguments with
  | error stop => rfl
  | ok items => exact consume_verbose more progress items

theorem read_traceFile {path : String} (h : interface.classify path = .ok .positional)
    (progress : Progress Settings) (arguments : List String) :
    read progress ("--debug-file" :: path :: arguments) =
      read { progress with settings := { progress.settings with traceFile := path } }
        arguments := by
  have hseparator : "--debug-file" ≠ "--" := by decide
  unfold read
  rw [classifyAll, if_neg hseparator, classify_traceFile, classifyAll, if_neg (ne_separator h), h]
  cases hitems : interface.classifyAll arguments with
  | error stop => rfl
  | ok items => exact consume_traceFile path progress items

theorem read_script {script : String} (h : interface.classify script = .ok .positional)
    (settings : Settings) :
    read { settings } [script] =
      .ok { settings := { settings with script := some script }, isOpen := false } := by
  unfold read
  rw [classifyAll, if_neg (ne_separator h), h]
  change interface.consume { settings } [(script, .positional)] = _
  rw [consume]
  rfl

theorem parse_of_read {settings : Settings} {arguments : List String}
    (h : read { settings := {} } arguments = .ok { settings, isOpen := false }) :
    interface.parse {} arguments = .ok settings := by
  unfold read at h
  unfold parse
  cases hitems : interface.classifyAll arguments with
  | error stop =>
      rw [hitems] at h
      cases h
  | ok items =>
      rw [hitems] at h
      change interface.consume _ items = _ at h
      change (interface.consume _ items >>= _) = _
      rw [h]
      rfl

/-! ## Whole command lines -/

theorem read_verboses (flags : List Nat) (settings : Settings) (arguments : List String) :
    read { settings } (flags.map verbose ++ arguments) =
      read { settings := settings.tracingMore (flags.sum + flags.length) } arguments := by
  induction flags generalizing settings with
  | nil => rfl
  | cons more rest ih =>
      have hmore : (settings.tracingMore (more + 1)).tracingMore (rest.sum + rest.length) =
          settings.tracingMore ((more :: rest).sum + (more :: rest).length) := by
        simp only [Settings.tracingMore, List.sum_cons, List.length_cons]
        congr 1
        omega
      rw [List.map_cons, List.cons_append, read_verbose, ih, hmore]

/-- Command lines that ask for so many levels of tracing, with the trace file and the script. -/
inductive AsksForTracing : List String → Nat → String → String → Prop
  | named {flags path script} :
      flags ≠ [] → interface.classify path = .ok .positional →
      interface.classify script = .ok .positional →
      AsksForTracing (flags.map verbose ++ ["--debug-file", path, script])
        (flags.sum + flags.length) path script
  | unnamed {flags script} :
      flags ≠ [] → interface.classify script = .ok .positional →
      AsksForTracing (flags.map verbose ++ [script]) (flags.sum + flags.length) "debug.txt" script

theorem parse_script {script : String} (h : interface.classify script = .ok .positional) :
    interface.parse {} [script] = .ok { script := some script } :=
  parse_of_read (read_script h {})

theorem AsksForTracing.parse {arguments : List String} {levels : Nat} {path script : String}
    (h : AsksForTracing arguments levels path script) :
    interface.parse {} arguments =
      .ok { verbosity := levels, traceFile := path, script := some script } := by
  cases h with
  | @named flags _ _ _ hpath hscript =>
      apply parse_of_read
      rw [read_verboses, read_traceFile hpath, read_script hscript]
      simp [Settings.tracingMore]
  | @unnamed flags _ _ hscript =>
      apply parse_of_read
      rw [read_verboses, read_script hscript]
      simp [Settings.tracingMore]

theorem AsksForTracing.positive {arguments : List String} {levels : Nat} {path script : String}
    (h : AsksForTracing arguments levels path script) : levels ≠ 0 := by
  cases h with
  | named hflags =>
      have := List.length_pos_iff.mpr hflags
      omega
  | unnamed hflags =>
      have := List.length_pos_iff.mpr hflags
      omega

theorem AsksForTracing.script_positional {arguments : List String} {levels : Nat}
    {path script : String} (h : AsksForTracing arguments levels path script) :
    interface.classify script = .ok .positional := by
  cases h with
  | named _ _ hscript => exact hscript
  | unnamed _ hscript => exact hscript

end LoxLang.Runner

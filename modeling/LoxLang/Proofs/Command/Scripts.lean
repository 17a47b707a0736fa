import LoxLang.Proofs.Command.TraceFile
import LoxLang.Proofs.Joining.Sessions
import LoxLang.Proofs.Text.Encoding
import LoxLang.Proofs.Text.Lines

/-!
# Scripts from the command line

The command with nothing but a script.  What it writes and how it ends follow from the
bytes of the script: whether they are a text, what mistakes are in the text, and what the
program in it does by the rules on globals without bindings.
-/

namespace LoxLang.Runner

open Scoping Frames

def scriptSource (text : String) : String :=
  String.ofList (Lines.unify text.toList)

section

variable (outcome : CommandOutcome)

structure FailsToRead (script : String) (bytes : List UInt8) : Prop where
  ending : outcome.ending = .exit 66
  output : outcome.output = ""
  errors : ∃ mistake, Utf8.decode bytes = .error mistake ∧
    outcome.errors =
      "Error: cannot read " ++ Path.normalize script ++ ": " ++ mistake.message ++ "\n"

structure ReportsMistakes (source : String) : Prop where
  ending : outcome.ending = .exit 65
  output : outcome.output = ""
  errors : outcome.errors = Lines.join ((scan source).problems.map Diagnostic.text) ++
    Lines.join ((scan source).text.program.diagnostics.map Diagnostic.text)
  lexical : ∀ d ∈ (scan source).problems, d.kind = "lexical"
  syntactic : ∀ d ∈ (scan source).text.program.diagnostics, d.kind = "syntax"

structure ReportsRun (lines : List String) (error : Option RuntimeError) : Prop where
  ending : outcome.ending = .exit (error.elim 0 fun _ => 70)
  output : outcome.output = Lines.join lines
  errors : outcome.errors = error.elim "" fun error => error.diagnostic.text ++ "\n"

end

/-! ## From the bytes of the script -/

section

variable {script : String} {bytes : List UInt8} {tree : FileTree} {text : String}

theorem classify_positional (h : script.toList.head? ≠ some '-') :
    interface.classify script = .ok .positional :=
  if_pos h

theorem scriptOutcome_of_no_text (h : ∀ text, Utf8.encode text ≠ bytes) :
    FailsToRead (scriptOutcome script bytes tree) script bytes := by
  unfold scriptOutcome
  cases hdecode : Utf8.decode bytes with
  | error mistake => exact ⟨rfl, rfl, mistake, hdecode, rfl⟩
  | ok text => exact absurd (Utf8.decode_eq_ok_iff.mp hdecode) (h _)

theorem scriptOutcome_of_text (h : Utf8.encode text = bytes) :
    scriptOutcome script bytes tree =
      { ending := .exit (scriptStep 0 text.toList).2.report.exitCode
        output := Lines.join (scriptStep 0 text.toList).1.output
        errors := Lines.join ((scriptStep 0 text.toList).2.report.held.map Diagnostic.text)
        tree } := by
  have hdecode : Utf8.decode bytes = .ok text.toList := by
    rw [Utf8.decode_eq_ok_iff, String.ofList_toList, h]
  rw [scriptOutcome, hdecode]

theorem scriptOutcome_of_mistaken (h : Utf8.encode text = bytes)
    (hmistaken : (Program.ofSource (scriptSource text)).diagnostics ≠ []) :
    ReportsMistakes (scriptOutcome script bytes tree) (scriptSource text) := by
  have hrejected := rejected_of_mistaken hmistaken (Session.start 0)
  have hstep : scriptStep 0 text.toList =
      (Session.start 0).step (.run (scriptSource text)) := rfl
  rw [scriptOutcome_of_text h, hstep, hrejected.exitCode, hrejected.output, hrejected.held,
    List.map_append, Lines.join_append]
  exact ⟨rfl, rfl, rfl, hrejected.lexical, hrejected.syntactic⟩

theorem start_represents (level : Int) :
    Represents ⟨{}, []⟩ (Session.start level).machine :=
  ⟨rfl, rfl⟩

theorem scriptOutcome_of_clean (h : Utf8.encode text = bytes)
    (hclean : (Program.ofSource (scriptSource text)).diagnostics = []) :
    ∃ globals lines error,
      Executes ⟨{}, []⟩ (Program.ofSource (scriptSource text)).statements ⟨globals, []⟩ lines
        error ∧
      ReportsRun (scriptOutcome script bytes tree) lines error := by
  obtain ⟨globals, error, hrun, -, hheld⟩ := step_run_follows (start_represents 0) hclean
  have hstep : scriptStep 0 text.toList =
      (Session.start 0).step (.run (scriptSource text)) := rfl
  refine ⟨globals, _, error, hrun, ?_⟩
  rw [scriptOutcome_of_text h, hstep, Report.exitCode, hadRuntimeError_of_held hheld,
    Report.hadError, hheld]
  cases error with
  | none => exact ⟨rfl, rfl, rfl⟩
  | some error =>
      refine ⟨rfl, rfl, ?_⟩
      simp [Lines.join]

end

/--
A script whose bytes are no text is only complained about.  If they are one, its line ends
are unified first.  Then the mistakes of the source are told and nothing is run; or, as there
are none, what the command writes is what the one run by the rules prints and stops at.  No
file is touched.
-/
theorem script_follows_rules {tree : FileTree} {script : String} {bytes : List UInt8}
    (hname : script.toList.head? ≠ some '-') (hscript : tree.lookup script = some (.file bytes))
    (input : StandardInput) :
    let outcome := run [script] tree input
    outcome.tree = tree ∧
      ((∀ text, Utf8.encode text ≠ bytes) → FailsToRead outcome script bytes) ∧
      ∀ text, Utf8.encode text = bytes →
        let program := Program.ofSource (scriptSource text)
        (program.diagnostics ≠ [] → ReportsMistakes outcome (scriptSource text)) ∧
        (program.diagnostics = [] → ∃ globals lines error,
          (∀ scopes' lines' error',
            Executes ⟨{}, []⟩ program.statements scopes' lines' error' ↔
              scopes' = ⟨globals, []⟩ ∧ lines' = lines ∧ error' = error) ∧
          ReportsRun outcome lines error) := by
  intro outcome
  have houtcome : outcome = scriptOutcome script bytes tree :=
    run_script (classify_positional hname) hscript input
  rw [houtcome]
  refine ⟨tree_scriptOutcome _ _ _, scriptOutcome_of_no_text, fun text htext => ?_⟩
  intro program
  refine ⟨scriptOutcome_of_mistaken htext, fun hclean => ?_⟩
  obtain ⟨globals, lines, error, hrun, hreports⟩ := scriptOutcome_of_clean htext hclean
  refine ⟨globals, lines, error, fun scopes' lines' error' => ⟨fun h => h.unique hrun, ?_⟩,
    hreports⟩
  rintro ⟨rfl, rfl, rfl⟩
  exact hrun

/-- The carriage returns end the first two lines, and the block is stopped on the third. -/
def accented : String :=
  "print \"\u00e9\";\r\nvar a;\r\x7b print a; print -a; \x7d"

def accentedTree : FileTree where
  entries := [(["a.lox"], .file (Utf8.encode accented))]

theorem script_follows_rules_stopped :
    "a.lox".toList.head? ≠ some '-' ∧
      accentedTree.lookup "a.lox" = some (.file (Utf8.encode accented)) ∧
      (run ["a.lox"] accentedTree {}).ending = .exit 70 ∧
      (run ["a.lox"] accentedTree {}).output = "\u00e9\nnil\n" ∧
      (run ["a.lox"] accentedTree {}).errors = "Operand must be a number.\n[line 3]\n" ∧
      (run ["a.lox"] accentedTree {}).tree = accentedTree := by
  have hname : "a.lox".toList.head? ≠ some '-' := by
    decide
  have hlookup : accentedTree.lookup "a.lox" = some (.file (Utf8.encode accented)) := rfl
  let reference : Expr := .reference ⟨.identifier, "a", .nil, 3⟩
  let minus : Token := ⟨.minus, "-", .nil, 3⟩
  let scopes : Scopes := ⟨⟨[("a", .nil)]⟩, []⟩
  have hclean : (Program.ofSource (scriptSource accented)).diagnostics = [] := by
    cbv
  have hstatements : (Program.ofSource (scriptSource accented)).statements =
      [.print (.literal (.string "\u00e9")), .declare ⟨.identifier, "a", .nil, 2⟩ none,
        .block [.print reference, .print (.unary minus reference)]] := by
    cbv
  have hnegate : Evaluates (scopes.under {}) (.unary minus reference) (scopes.under {})
      (minus.applyUnary .nil) := .unary (.reference rfl)
  have hblock : Executes (scopes.under {}) [.print reference, .print (.unary minus reference)]
      (scopes.under {}) ([Value.nil.text] ++ []) (some ⟨.operandNotNumber, minus⟩) :=
    .next (.print (.reference rfl)) (.stops (.printStops hnegate))
  have hrun : Executes ⟨{}, []⟩ (Program.ofSource (scriptSource accented)).statements scopes
      ["\u00e9", "nil"] (some ⟨.operandNotNumber, minus⟩) := by
    rw [hstatements]
    exact .next (.print .literal) (.next .declare (.stops (.block hblock)))
  obtain ⟨htree, -, htext⟩ := script_follows_rules hname hlookup {}
  obtain ⟨-, hruns⟩ := htext accented rfl
  obtain ⟨_, _, _, hunique, hreports⟩ := hruns hclean
  obtain ⟨-, rfl, rfl⟩ := (hunique _ _ _).mp hrun
  refine ⟨hname, hlookup, hreports.ending, ?_, ?_, htree⟩
  · rw [hreports.output]
    rfl
  · rw [hreports.errors]
    rfl

end LoxLang.Runner

import LoxLang.Proofs.Joining.Programs
import LoxLang.Proofs.Layout.Lexemes
import LoxLang.Proofs.Lockstep.Machines
import LoxLang.Session

/-!
# Layout does not change a program

Sources that differ in layout have tokens that differ in lines, and neither reading nor
running looks at lines.  So in any session the sources run alike, and the diagnostics
about them are the same but for their lines.
-/

namespace LoxLang

open Lexeme

/-! ## The same but for lines -/

structure Diagnostic.SameButLine (first second : Diagnostic) : Prop where
  kind : second.kind = first.kind
  place : second.place = first.place
  message : second.message = first.message

structure Report.SameButLine (first second : Report) : Prop where
  held : List.Forall₂ Diagnostic.SameButLine first.held second.held
  listens : second.listens = first.listens
  heard : List.Forall₂ Diagnostic.SameButLine first.heard second.heard

theorem Token.sameButLine_later (lines : Nat) (token : Token) :
    token.SameButLine (token.later lines) :=
  ⟨rfl, rfl, rfl⟩

theorem Diagnostic.SameButLine.refl (d : Diagnostic) : d.SameButLine d :=
  ⟨rfl, rfl, rfl⟩

theorem Diagnostic.sameButLine_later (lines : Nat) (d : Diagnostic) :
    d.SameButLine (d.later lines) :=
  ⟨rfl, rfl, rfl⟩

theorem sameButLine_atToken {token token' : Token} (h : token.SameButLine token')
    (message : String) :
    (Diagnostic.atToken token message).SameButLine (Diagnostic.atToken token' message) := by
  refine ⟨rfl, ?_, rfl⟩
  rw [Diagnostic.atToken, Diagnostic.atToken, h.kind, h.lexeme]

theorem RuntimeError.Alike.sameButLine {error error' : RuntimeError}
    (h : error.Alike Token.SameButLine error') :
    error.diagnostic.SameButLine error'.diagnostic := by
  refine ⟨rfl, rfl, ?_⟩
  change error'.message = error.message
  rw [RuntimeError.message, RuntimeError.message, h.cause, h.token.lexeme]

theorem forall₂_append_map {α : Type} {related : α → α → Prop} {change : α → α}
    (hrefl : ∀ x, related x x) (hchange : ∀ x, related x (change x)) (front back : List α) :
    List.Forall₂ related (front ++ back) (front ++ back.map change) := by
  have hfront : List.Forall₂ related front front := List.forall₂_same.mpr fun x _ => hrefl x
  have hback : List.Forall₂ related back (back.map change) :=
    List.forall₂_map_right_iff.mpr (List.forall₂_same.mpr fun x _ => hchange x)
  exact List.rel_append hfront hback

namespace Report.SameButLine

variable {report report' : Report} {d d' : Diagnostic}

theorem refl (report : Report) : report.SameButLine report :=
  ⟨List.forall₂_same.mpr fun d _ => .refl d, rfl, List.forall₂_same.mpr fun d _ => .refl d⟩

theorem clear (h : report.SameButLine report') : report.clear.SameButLine report'.clear :=
  ⟨.nil, h.listens, h.heard⟩

theorem add (h : report.SameButLine report') (hd : d.SameButLine d') :
    (report.add d).SameButLine (report'.add d') := by
  refine ⟨List.rel_append h.held (.cons hd .nil), h.listens, ?_⟩
  simp only [Report.add, h.listens]
  split
  · exact List.rel_append h.heard (.cons hd .nil)
  · exact h.heard

theorem addAll {ds ds' : List Diagnostic} (hds : List.Forall₂ Diagnostic.SameButLine ds ds')
    (h : report.SameButLine report') : (report.addAll ds).SameButLine (report'.addAll ds') := by
  induction hds generalizing report report' with
  | nil => exact h
  | cons hd _ ih => exact ih (h.add hd)

theorem any_eq {p : Diagnostic → Bool} (hp : ∀ {d d'}, d.SameButLine d' → p d' = p d)
    {ds ds' : List Diagnostic} (h : List.Forall₂ Diagnostic.SameButLine ds ds') :
    ds'.any p = ds.any p := by
  induction h with
  | nil => rfl
  | cons hd _ ih => rw [List.any_cons, List.any_cons, hp hd, ih]

theorem hadError (h : report.SameButLine report') : report'.hadError = report.hadError := by
  refine any_eq (fun hd => ?_) h.held
  rw [Diagnostic.isRuntime, Diagnostic.isRuntime, hd.kind]

theorem exitCode (h : report.SameButLine report') : report'.exitCode = report.exitCode := by
  have hruntime : report'.hadRuntimeError = report.hadRuntimeError := by
    refine any_eq (fun hd => ?_) h.held
    rw [Diagnostic.isRuntime, Diagnostic.isRuntime, hd.kind]
  rw [Report.exitCode, Report.exitCode, h.hadError, hruntime]

end Report.SameButLine

/-! ## Reading -/

theorem lockstep_sameButLine :
    Lockstep Token.SameButLine (List.Forall₂ Token.SameButLine)
      (List.Forall₂ Token.SameButLine) where
  same := id
  heads := by
    intro tokens tokens' h
    cases h with
    | nil => exact .nil
    | cons htoken _ => exact .cons htoken
  tail := fun h _ => (List.forall₂_cons.mp h).2
  behind := fun h _ => (List.forall₂_cons.mp h).2

theorem SyntaxError.Alike.sameButLine {error error' : SyntaxError} {ending ending' : Token}
    (h : error.Alike (List.Forall₂ Token.SameButLine) error')
    (hending : ending.SameButLine ending') :
    (error.diagnostic ending).SameButLine (error'.diagnostic ending') := by
  obtain ⟨cause, unread⟩ := error
  obtain ⟨cause', unread'⟩ := error'
  obtain ⟨rfl, hunread⟩ := h
  apply sameButLine_atToken
  cases hunread with
  | nil => exact hending
  | cons htoken _ => exact htoken

theorem TokenText.program_alike {text text' : TokenText}
    (hbody : List.Forall₂ Token.SameButLine text.body text'.body)
    (hending : text.ending.SameButLine text'.ending) :
    Stmt.AllAlike Token.SameButLine text.program.statements text'.program.statements ∧
      List.Forall₂ Diagnostic.SameButLine text.program.diagnostics text'.program.diagnostics := by
  have hdeclared := Stmt.readDeclarations_alike lockstep_sameButLine hbody
  refine ⟨Stmt.AllAlike.of_declared hdeclared, ?_⟩
  have herrors := List.rel_flatMap hdeclared fun _ _ h => h.errors
  exact List.rel_map (fun _ _ h => h.sameButLine hending) herrors

/-! ## Running -/

structure Session.SameButLine (first second : Session) : Prop where
  arena : second.machine.arena = first.machine.arena
  frame : second.machine.frame = first.machine.frame
  output : second.machine.output = first.machine.output
  report : first.report.SameButLine second.report

structure Session.SameStep (taken taken' : Session.Answer × Session) : Prop where
  result : taken'.1.result = taken.1.result
  output : taken'.1.output = taken.1.output
  arena : taken'.2.machine.arena = taken.2.machine.arena
  frame : taken'.2.machine.frame = taken.2.machine.frame
  report : taken.2.report.SameButLine taken'.2.report
  exitCode : taken'.2.report.exitCode = taken.2.report.exitCode

namespace Session

theorem interpret_alike {statements statements' : List Stmt} {session session' : Session}
    (halike : Stmt.AllAlike Token.SameButLine statements statements')
    (hmachine : session'.machine = session.machine)
    (hreport : session.report.SameButLine session'.report) :
    (session'.interpret statements').1 = (session.interpret statements).1 ∧
      (session.interpret statements).2.SameButLine (session'.interpret statements').2 := by
  have hrun := halike.executeAll Machine.indistinct_eq id session.machine session'.machine
    hmachine.symm
  unfold interpret
  generalize Stmt.executeAll statements session.machine = ended at hrun ⊢
  generalize Stmt.executeAll statements' session'.machine = ended' at hrun ⊢
  cases hrun with
  | ok hended =>
      subst hended
      exact ⟨rfl, rfl, rfl, rfl, hreport⟩
  | @error fault _ _ _ hfault hended =>
      subst hended
      cases hfault with
      | runtime herror =>
          refine ⟨rfl, ?_, ?_, ?_, hreport.add herror.sameButLine⟩
          · simp
          · simp
          · simp
      | same =>
          cases fault with
          | runtime error => exact ⟨rfl, rfl, rfl, rfl, hreport.add (.refl _)⟩
          | _ => exact ⟨rfl, rfl, rfl, rfl, hreport⟩

theorem run_alike {source source' : String}
    (hstatements : Stmt.AllAlike Token.SameButLine (Program.ofSource source).statements
      (Program.ofSource source').statements)
    (hdiagnostics : List.Forall₂ Diagnostic.SameButLine (Program.ofSource source).diagnostics
      (Program.ofSource source').diagnostics) (session : Session) :
    (session.run source').1 = (session.run source).1 ∧
      (session.run source).2.SameButLine (session.run source').2 := by
  have hreport := (Report.SameButLine.refl session.clear.report).addAll hdiagnostics
  unfold run
  dsimp only
  have herror : (session.clear.reporting (Program.ofSource source').diagnostics).report.hadError =
      (session.clear.reporting (Program.ofSource source).diagnostics).report.hadError :=
    hreport.hadError
  rw [herror]
  split
  · exact ⟨rfl, rfl, rfl, rfl, hreport⟩
  · exact interpret_alike hstatements rfl hreport

theorem step_run_alike {source source' : String}
    (hstatements : Stmt.AllAlike Token.SameButLine (Program.ofSource source).statements
      (Program.ofSource source').statements)
    (hdiagnostics : List.Forall₂ Diagnostic.SameButLine (Program.ofSource source).diagnostics
      (Program.ofSource source').diagnostics) (session : Session) :
    SameStep (session.step (.run source)) (session.step (.run source')) := by
  obtain ⟨hresult, hsession⟩ := run_alike hstatements hdiagnostics session.quiet
  exact {
    result := congrArg (Except.map fun _ => Result.nothing) hresult
    output := hsession.output
    arena := hsession.arena
    frame := hsession.frame
    report := hsession.report
    exitCode := hsession.report.exitCode }

end Session

/--
Layout put in where a lexeme starts leaves the tokens in front of it as they are and
moves those behind it down by its newlines.  In any session both sources do the same,
but for the lines in diagnostics.
-/
theorem layout_changes_lines {front back layout : List Char} {c : Char} (h : Meet front back)
    (hc : c ∈ [' ', '\r', '\t', '\n']) (hlayout : Layout layout) (session : Session) :
    (∃ tokens,
      (scan (String.ofList (front ++ back))).text.toList =
        (scan (String.ofList front)).text.body ++ tokens ∧
      (scan (String.ofList (front ++ c :: layout ++ back))).text.toList =
        (scan (String.ofList front)).text.body ++
          tokens.map (Token.later (newlines (c :: layout)))) ∧
      Session.SameStep (session.step (.run (String.ofList (front ++ back))))
        (session.step (.run (String.ofList (front ++ c :: layout ++ back)))) := by
  obtain ⟨tokens, problems, hbody, hbody', hending, hproblems, hproblems'⟩ :=
    scan_layout h hc hlayout
  constructor
  · refine ⟨tokens ++ [(scan (String.ofList (front ++ back))).text.ending], ?_, ?_⟩
    · rw [TokenText.toList, hbody, List.append_assoc]
    · rw [TokenText.toList, hbody', hending, List.append_assoc, List.map_append]
      rfl
  · have hsame : List.Forall₂ Token.SameButLine (scan (String.ofList (front ++ back))).text.body
        (scan (String.ofList (front ++ c :: layout ++ back))).text.body := by
      rw [hbody, hbody']
      exact forall₂_append_map .refl (Token.sameButLine_later _) _ _
    have hlexical : List.Forall₂ Diagnostic.SameButLine
        (scan (String.ofList (front ++ back))).problems
        (scan (String.ofList (front ++ c :: layout ++ back))).problems := by
      rw [hproblems, hproblems']
      exact forall₂_append_map .refl (Diagnostic.sameButLine_later _) _ _
    have hend : (scan (String.ofList (front ++ back))).text.ending.SameButLine
        (scan (String.ofList (front ++ c :: layout ++ back))).text.ending := by
      rw [hending]
      exact Token.sameButLine_later _ _
    obtain ⟨hstatements, hsyntax⟩ := TokenText.program_alike hsame hend
    exact Session.step_run_alike hstatements (List.rel_append hlexical hsyntax) session

/-- A comment that ends where the texts meet goes on up to the newline of the layout. -/
theorem layout_changes_lines_behind_comment :
    Meet [';', '/', '/'] ['\n', ';'] ∧ Layout ['/', '/', '\n'] ∧
      Session.SameStep
        ((Session.start 0).step (.run (String.ofList [';', '/', '/', '\n', ';'])))
        ((Session.start 0).step
          (.run (String.ofList [';', '/', '/', ' ', '/', '/', '\n', '\n', ';']))) := by
  have hlexemes : ofText [';', '/', '/', '\n', ';'] =
      [⟨[';'], .token .semicolon .nil⟩, ⟨['/', '/'], .comment⟩] ++
        [⟨['\n'], .blank⟩, ⟨[';'], .token .semicolon .nil⟩] := by
    cbv
  have hmeet : Meet [';', '/', '/'] ['\n', ';'] := .inside hlexemes rfl (by simp)
  have hlayout : Layout ['/', '/', '\n'] := @Layout.comment [] [] (by simp) .nil
  have hblank : ' ' ∈ [' ', '\r', '\t', '\n'] := by decide
  exact ⟨hmeet, hlayout, (layout_changes_lines hmeet hblank hlayout (Session.start 0)).2⟩

end LoxLang

import Mathlib.Data.Finset.Dedup
import LoxLang.Proofs.Outcome.Runs
import LoxLang.Proofs.Resolution.Runs

/-!
# Undefined names are decided by the text

The first name of a program that no map binds can be told from the program and the names
of the globals.  A run looks up no undefined name but this one, and if the name is there
the run is stopped: at the name, or at an operator that comes before it.
-/

namespace LoxLang

open Scoping Frames Resolution

def Bindings.names (bindings : Bindings) : Finset String :=
  (bindings.entries.map Prod.fst).toFinset

namespace Resolution

theorem isSome_find?_iff (name : String) (entries : List (String × Value)) :
    (Bindings.find? name entries).isSome = true ↔ name ∈ entries.map Prod.fst := by
  induction entries with
  | nil => simp [Bindings.find?]
  | cons entry rest ih =>
      obtain ⟨key, value⟩ := entry
      by_cases h : key = name
      · simp [Bindings.find?, h]
      · simp [Bindings.find?, h, Ne.symm h, ih]

theorem describes_names (bindings : Bindings) : Describes bindings.names bindings := by
  intro name
  rw [Bindings.names, List.mem_toFinset, Bindings.get?, isSome_find?_iff]

/-! ## The first unbound name -/

variable {sites visits : List Site}

theorem firstUnbound_eq_none (h : ∀ site ∈ sites, site.isBound = true) :
    firstUnbound sites = none := by
  rw [firstUnbound, List.findSome?_eq_none_iff]
  intro site hmem
  exact Option.isNone_iff_eq_none.mp (h site hmem)

theorem takeWhile_isBound {before after : List Site} {site : Site}
    (hbefore : ∀ other ∈ before, other.isBound = true) (hsite : site.isBound = false) :
    (before ++ site :: after).takeWhile Site.isBound = before := by
  rw [List.takeWhile_append_of_pos hbefore, List.takeWhile_cons_of_neg (by simp [hsite]),
    List.append_nil]

theorem firstUnbound_append {before after : List Site} {name : Token}
    (hbefore : ∀ other ∈ before, other.isBound = true) :
    firstUnbound (before ++ .name name none :: after) = some name := by
  have hnone := firstUnbound_eq_none hbefore
  rw [firstUnbound] at hnone
  rw [firstUnbound, List.findSome?_append, hnone]
  rfl

theorem Follows.completed (h : Follows sites visits none) :
    visits = sites ∧ firstUnbound sites = none := by
  cases h with
  | whole hbound => exact ⟨rfl, firstUnbound_eq_none hbound⟩

structure AtUnbound (sites visits : List Site) (error : RuntimeError) : Prop where
  undefined : error = undefined error.token
  first : firstUnbound sites = some error.token
  visits : visits = sites.takeWhile Site.isBound ++ [.name error.token none]

structure AtOperator (sites visits : List Site) (error : RuntimeError) : Prop where
  operands : error.OfOperands
  last : visits.getLast? = some (.operator error.token)
  visits : visits <+: sites.takeWhile Site.isBound

theorem Follows.stop {error : RuntimeError} (h : Follows sites visits (some error)) :
    AtUnbound sites visits error ∨ AtOperator sites visits error := by
  cases h with
  | @stopped before site after _ hsites hbefore hstops =>
      subst hsites
      cases hstops with
      | @unbound name =>
          refine .inl ⟨rfl, firstUnbound_append hbefore, ?_⟩
          rw [takeWhile_isBound hbefore rfl]
          rfl
      | operands hoperands =>
          refine .inr ⟨hoperands, List.getLast?_concat .., ?_⟩
          rw [List.takeWhile_append_of_pos hbefore, List.takeWhile_cons_of_pos rfl]
          exact ⟨_, by rw [List.append_assoc]; rfl⟩

theorem Follows.isPrefix {error : Option RuntimeError} (h : Follows sites visits error) :
    visits <+: sites := by
  cases h with
  | whole => exact List.prefix_rfl
  | stopped hsites =>
      rw [hsites]
      exact ⟨_, by rw [List.append_assoc]; rfl⟩

/-! ## Interpreting a program -/

section

variable {globals : Bindings} {machine : Machine}

theorem allVisits_follows {stmts : List Stmt} (hwell : Stmt.AllWellFormed stmts)
    (hrep : Represents ⟨globals, []⟩ machine) :
    ∃ error machine', Stmt.executeAll stmts machine = finish error machine' ∧
      Follows (Stmt.allSites ⟨globals.names, []⟩ stmts) (Stmt.allVisits stmts machine) error := by
  have htracks : Tracks ⟨globals.names, []⟩ ⟨globals, []⟩ := ⟨describes_names globals, .nil⟩
  obtain ⟨_, _, error, machine', hrun, hexecute, -⟩ := hwell.exists_run hrep
  exact ⟨error, machine', hexecute, (hrun.visits hwell htracks hrep).2⟩

end

structure StoppedBy (session : Session) (ended : Except Fault Bool × Session)
    (error : RuntimeError) : Prop where
  result : ended.1 = .ok false
  report : ended.2.report = session.report.add error.diagnostic

/--
A program that is read runs along the sites of its text.  If all its names are bound it is
completed, or an operator stops it.  If one is unbound it is stopped, at the first such
name or at an operator in front of it.  Other values of the globals have no part in what
is found at a site, only in how far the run gets.
-/
theorem undefined_names_decided_by_text (text : TokenText) {session : Session}
    {globals : Bindings} (harena : session.machine.arena = ⟨[{ values := globals }]⟩)
    (hframe : session.machine.frame = 0) :
    let statements := text.program.statements
    let sites := Stmt.allSites ⟨globals.names, []⟩ statements
    let visits := Stmt.allVisits statements session.machine
    let ended := session.interpret statements
    visits <+: sites ∧
    (firstUnbound sites = none →
      (ended.1 = .ok true ∧ ended.2.report = session.report ∧ visits = sites) ∨
        ∃ error, StoppedBy session ended error ∧ AtOperator sites visits error) ∧
    (∀ name, firstUnbound sites = some name →
      ∃ error, StoppedBy session ended error ∧
        (error = undefined name ∧ AtUnbound sites visits error ∨
          AtOperator sites visits error)) ∧
    ∀ (other : Machine) (values : Bindings), other.arena = ⟨[{ values }]⟩ → other.frame = 0 →
      values.names = globals.names →
      visits <+: Stmt.allVisits statements other ∨ Stmt.allVisits statements other <+: visits := by
  intro statements sites visits ended
  have hwell : Stmt.AllWellFormed statements := text.program_wellFormed
  obtain ⟨error, machine, hexecute, hfollows⟩ := allVisits_follows hwell ⟨harena, hframe⟩
  have hended : ended = (.ok error.isNone, session.ended machine error) :=
    Session.interpret_of_finish hexecute
  have hstopped : ∀ stop, error = some stop → StoppedBy session ended stop := by
    rintro stop rfl
    rw [hended]
    exact ⟨rfl, rfl⟩
  refine ⟨hfollows.isPrefix, ?_, ?_, ?_⟩
  · intro hbound
    cases error with
    | none => exact .inl ⟨by rw [hended]; rfl, by rw [hended]; rfl, hfollows.completed.1⟩
    | some error =>
        rcases hfollows.stop with hunbound | hoperator
        · rw [hunbound.first] at hbound
          cases hbound
        · exact .inr ⟨error, hstopped error rfl, hoperator⟩
  · intro name hname
    cases error with
    | none =>
        rw [hfollows.completed.2] at hname
        cases hname
    | some error =>
        refine ⟨error, hstopped error rfl, ?_⟩
        rcases hfollows.stop with hunbound | hoperator
        · have hsame := Option.some.inj (hunbound.first.symm.trans hname)
          exact .inl ⟨by rw [← hsame]; exact hunbound.undefined, hunbound⟩
        · exact .inr hoperator
  · intro other values hother hfirst hnames
    obtain ⟨_, _, -, hfollows'⟩ := allVisits_follows hwell ⟨hother, hfirst⟩
    rw [hnames] at hfollows'
    exact List.prefix_or_prefix_of_prefix hfollows.isPrefix hfollows'.isPrefix

theorem undefined_names_decided_by_text_block :
    let text := (scan "\x7b var b = a; print b; \x7d\nprint b;").text
    let globals : Bindings := ⟨[("a", .string "text")]⟩
    let ended := staleSession.interpret text.program.statements
    staleSession.machine.arena = ⟨[{ values := globals }]⟩ ∧ staleSession.machine.frame = 0 ∧
      firstUnbound (Stmt.allSites ⟨globals.names, []⟩ text.program.statements) =
        some ⟨.identifier, "b", .nil, 2⟩ ∧
      ended.1 = .ok false ∧
      ended.2.report.held =
        staleSession.report.held ++ [.runtime 2 "Undefined variable 'b'."] := by
  intro text globals ended
  have htext : text =
      ⟨[.bare .leftBrace "\x7b" 1, .bare .wordVar "var" 1, .bare .identifier "b" 1,
        .bare .equal "=" 1, .bare .identifier "a" 1, .bare .semicolon ";" 1,
        .bare .wordPrint "print" 1, .bare .identifier "b" 1, .bare .semicolon ";" 1,
        .bare .rightBrace "\x7d" 1, .bare .wordPrint "print" 2, .bare .identifier "b" 2,
        .bare .semicolon ";" 2], .ending 2⟩ := by
    with_unfolding_all rfl
  have hstatements : text.program.statements =
      [.block [.declare ⟨.identifier, "b", .nil, 1⟩ (some (.reference ⟨.identifier, "a", .nil, 1⟩)),
        .print (.reference ⟨.identifier, "b", .nil, 1⟩)],
        .print (.reference ⟨.identifier, "b", .nil, 2⟩)] := by
    rw [htext]
    cbv
  have hsites : Stmt.allSites ⟨globals.names, []⟩ text.program.statements =
      [.name ⟨.identifier, "a", .nil, 1⟩ (some 0), .name ⟨.identifier, "b", .nil, 1⟩ (some 1),
        .name ⟨.identifier, "b", .nil, 2⟩ none] := by
    rw [hstatements]
    rfl
  have hfirst : firstUnbound (Stmt.allSites ⟨globals.names, []⟩ text.program.statements) =
      some ⟨.identifier, "b", .nil, 2⟩ := by
    rw [hsites]
    rfl
  have harena : staleSession.machine.arena = ⟨[{ values := globals }]⟩ := rfl
  have hframe : staleSession.machine.frame = 0 := rfl
  obtain ⟨hvisits, -, hunbound, -⟩ := undefined_names_decided_by_text text harena hframe
  obtain ⟨error, hstopped, hcases⟩ := hunbound _ hfirst
  refine ⟨rfl, rfl, hfirst, hstopped.result, ?_⟩
  rcases hcases with ⟨rfl, -⟩ | hoperator
  · rw [hstopped.report]
    rfl
  · -- No operator is among the sites.
    have hmem := hvisits.subset (List.mem_of_getLast? hoperator.last)
    rw [hsites] at hmem
    simp at hmem

end Resolution

end LoxLang

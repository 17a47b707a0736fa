import Mathlib.Data.List.Forall2
import LoxLang.Proofs.Outcome.NoFaults
import LoxLang.Proofs.Resolution.Sites

/-!
# Runs visit the sites of the text

The sets of names in the text follow the maps of the run from statement to statement,
so a run visits the sites of its text in order and finds at each what the text tells.
It ends at the last site, unless an operator stops it before that or a name that no map
binds does; and it never gets past such a name.
-/

namespace LoxLang

open Scoping

namespace Resolution

/-! ## Names of maps -/

def Describes (set : Finset String) (map : Bindings) : Prop :=
  ∀ name, name ∈ set ↔ (map.get? name).isSome = true

structure Tracks (names : Names) (scopes : Scopes) : Prop where
  top : Describes names.top scopes.top
  below : List.Forall₂ Describes names.below scopes.below

theorem Describes.insert {set : Finset String} {map : Bindings} (h : Describes set map)
    (name : String) (value : Value) :
    Describes (insert name set) (map.insert name value) := by
  intro other
  rw [Finset.mem_insert, h other, Bindings.get?_insert]
  by_cases hname : name = other
  · simp [hname]
  · simp [hname, Ne.symm hname]

theorem Describes.update {set : Finset String} {map : Bindings} (h : Describes set map)
    {name : String} (hbound : (map.get? name).isSome = true) (value : Value) :
    Describes set (map.insert name value) := by
  have hmem := (h name).mpr hbound
  have hinsert := h.insert name value
  rw [Finset.insert_eq_self.mpr hmem] at hinsert
  exact hinsert

section

variable {names : Names} {scopes : Scopes}

theorem Tracks.under (h : Tracks names scopes) : Tracks names.under (scopes.under {}) :=
  ⟨fun name => by simp [Names.under, Scopes.under], .cons h.top h.below⟩

theorem Tracks.declare (h : Tracks names scopes) (name : String) (value : Value) :
    Tracks (names.declare name) (scopes.define name value) :=
  ⟨h.top.insert name value, h.below⟩

theorem Tracks.of_under {top : Finset String} {inner : Bindings}
    (h : Tracks ⟨top, names.under.below⟩ (scopes.under inner)) : Tracks names scopes := by
  obtain ⟨-, hbelow⟩ := h
  cases hbelow with
  | cons htop hbelow => exact ⟨htop, hbelow⟩

end

theorem update_describes {name : String} {value : Value} {top : Finset String}
    {below : List (Finset String)} {map : Bindings} {maps : List Bindings} {scopes : Scopes}
    (htop : Describes top map) (hbelow : List.Forall₂ Describes below maps)
    (h : Scopes.update name value map maps = some scopes) :
    Describes top scopes.top ∧ List.Forall₂ Describes below scopes.below := by
  induction hbelow generalizing top map scopes with
  | nil =>
      unfold Scopes.update at h
      cases hget : map.get? name with
      | none => simp [hget] at h
      | some old =>
          rw [hget] at h
          cases h
          exact ⟨htop.update (by rw [hget]; rfl) value, .nil⟩
  | @cons next map' more maps hnext hmore ih =>
      unfold Scopes.update at h
      cases hget : map.get? name with
      | none =>
          rw [hget] at h
          obtain ⟨inner, hinner, rfl⟩ := Option.map_eq_some_iff.mp h
          obtain ⟨htop', hbelow'⟩ := ih hnext hinner
          exact ⟨htop, .cons htop' hbelow'⟩
      | some old =>
          rw [hget] at h
          cases h
          exact ⟨htop.update (by rw [hget]; rfl) value, .cons hnext hmore⟩

theorem Tracks.assign {names : Names} {scopes scopes' : Scopes} (h : Tracks names scopes)
    {name : String} {value : Value} (hassign : scopes.assign? name value = some scopes') :
    Tracks names scopes' := by
  obtain ⟨htop, hbelow⟩ := update_describes h.top h.below hassign
  exact ⟨htop, hbelow⟩

theorem find_eq_locate {name : String} {top : Finset String} {below : List (Finset String)}
    {map : Bindings} {maps : List Bindings} (htop : Describes top map)
    (hbelow : List.Forall₂ Describes below maps) :
    Names.find name top below = (locate name map maps).map Prod.fst := by
  induction hbelow generalizing top map with
  | nil =>
      unfold Names.find locate
      have hmem := htop name
      cases hget : map.get? name with
      | none => simp [hmem, hget]
      | some value => simp [hmem, hget]
  | @cons next map' more maps hnext hmore ih =>
      unfold Names.find locate
      have hmem := htop name
      cases hget : map.get? name with
      | none => simpa [hmem, hget] using ih hnext
      | some value => simp [hmem, hget, hmore.length_eq]

section

variable {names : Names} {scopes : Scopes} {machine : Machine}

theorem Represents.scope? (h : Represents scopes machine) (name : String) :
    machine.scope? name = (locate name scopes.top scopes.below).map Prod.fst := by
  rw [Machine.scope?, h.lookup]
  cases locate name scopes.top scopes.below <;> rfl

theorem Tracks.scope? (h : Tracks names scopes) (hrep : Represents scopes machine)
    (name : String) : machine.scope? name = names.scope? name := by
  rw [Represents.scope? hrep, Names.scope?, find_eq_locate h.top h.below]

theorem Tracks.scope?_eq_none_iff (h : Tracks names scopes) (name : String) :
    names.scope? name = none ↔ scopes.get? name = none := by
  rw [Names.scope?, find_eq_locate h.top h.below, Scopes.get?, lookup_eq_locate]
  simp

theorem assign?_eq_none_iff (scopes : Scopes) (name : String) (value : Value) :
    scopes.assign? name value = none ↔ scopes.get? name = none := by
  have hupdate := @update_frames name value scopes.top scopes.below
  rw [Scopes.assign?, Scopes.get?, lookup_eq_locate]
  cases hlocate : locate name scopes.top scopes.below with
  | none =>
      rw [hlocate] at hupdate
      simpa using hupdate
  | some found =>
      rw [hlocate] at hupdate
      obtain ⟨scopes', hscopes, -⟩ := hupdate
      simp [hscopes]

end

end Resolution

/-! ## Operators -/

def RuntimeError.operandMessages : List String :=
  ["Operand must be a number.", "Operands must be numbers.",
    "Operands must be two numbers or two strings."]

def RuntimeError.OfOperands (error : RuntimeError) : Prop :=
  error.message ∈ operandMessages ∧ error.cause ≠ .undefinedVariable

namespace Token

variable {operator : Token} {error : RuntimeError}

theorem applyUnary_error (h : operator.kind ∈ unaryOperators) {operand : Value}
    (herror : operator.applyUnary operand = .error error) :
    error.OfOperands ∧ error.token = operator := by
  have hkind : operator.kind = .bang ∨ operator.kind = .minus := by simpa [unaryOperators] using h
  rcases hkind with hkind | hkind <;> unfold applyUnary at herror <;> rw [hkind] at herror
  · cases herror
  · cases operand <;> cases herror <;>
      exact ⟨⟨.head _, by simp⟩, rfl⟩

theorem applyBinary_error (h : operator.kind ∈ binaryOperators) {left right : Value}
    (herror : operator.applyBinary left right = .error error) :
    error.OfOperands ∧ error.token = operator := by
  unfold applyBinary at herror
  split at herror
  next =>
    split at herror <;> cases herror
    exact ⟨⟨.tail _ (.tail _ (.head _)), by simp⟩, rfl⟩
  next => cases herror
  next => cases herror
  next kind hplus hequal hbang =>
    have hsome := arithmetic_isSome h hplus hequal hbang
    split at herror
    next hnone => simp [hnone] at hsome
    next =>
      split at herror <;> cases herror
      exact ⟨⟨.tail _ (.head _), by simp⟩, rfl⟩

end Token

namespace Resolution

/-! ## Following the sites -/

inductive Site.Stops : Site → RuntimeError → Prop
  | unbound {token} : Stops (.name token none) (undefined token)
  | operands {error} : error.OfOperands → Stops (.operator error.token) error

/-- The visits are all the sites, none of which stops the run, or those up to one that does. -/
inductive Follows (sites : List Site) : List Site → Option RuntimeError → Prop
  | whole : (∀ site ∈ sites, site.isBound = true) → Follows sites sites none
  | stopped {before site after error} :
      sites = before ++ site :: after → (∀ other ∈ before, other.isBound = true) →
      site.Stops error → Follows sites (before ++ [site]) (some error)

variable {sites sites' visits visits' : List Site} {error : Option RuntimeError}

theorem Follows.append (h : Follows sites visits none) (h' : Follows sites' visits' error) :
    Follows (sites ++ sites') (visits ++ visits') error := by
  cases h with
  | whole hbound =>
      cases h' with
      | whole hbound' =>
          refine .whole fun site hmem => ?_
          rcases List.mem_append.mp hmem with hmem | hmem
          · exact hbound site hmem
          · exact hbound' site hmem
      | @stopped before site after error hsites hbefore hstops =>
          have hwhole : sites ++ sites' = sites ++ before ++ site :: after := by
            rw [hsites, List.append_assoc]
          rw [← List.append_assoc]
          refine .stopped hwhole ?_ hstops
          intro other hmem
          rcases List.mem_append.mp hmem with hmem | hmem
          · exact hbound other hmem
          · exact hbefore other hmem

theorem Follows.append_of_stopped {stop : RuntimeError} (h : Follows sites visits (some stop))
    (later : List Site) : Follows (sites ++ later) (visits ++ []) (some stop) := by
  rw [List.append_nil]
  cases h with
  | @stopped before site after _ hsites hbefore hstops =>
      have hwhole : sites ++ later = before ++ site :: (after ++ later) := by
        rw [hsites, List.append_assoc, List.cons_append]
      exact .stopped hwhole hbefore hstops

theorem follows_nil : Follows [] [] none :=
  .whole fun _ hmem => nomatch hmem

theorem follows_bound {site : Site} (h : site.isBound = true) : Follows [site] [site] none :=
  .whole fun _ hmem => by rw [List.mem_singleton.mp hmem]; exact h

theorem follows_stop {site : Site} {stop : RuntimeError} (h : site.Stops stop) :
    Follows [site] [site] (some stop) := by
  have hwhole : [site] = [] ++ site :: [] := rfl
  exact .stopped hwhole (fun _ hmem => nomatch hmem) h

def stop? : Except RuntimeError Value → Option RuntimeError
  | .ok _ => none
  | .error error => some error

theorem follows_unary {operator : Token} (h : operator.kind ∈ unaryOperators) (operand : Value) :
    Follows [.operator operator] [.operator operator] (stop? (operator.applyUnary operand)) := by
  cases hresult : operator.applyUnary operand with
  | ok value => exact follows_bound rfl
  | error error =>
      obtain ⟨hoperands, rfl⟩ := Token.applyUnary_error h hresult
      exact follows_stop (.operands hoperands)

theorem follows_binary {operator : Token} (h : operator.kind ∈ binaryOperators)
    (left right : Value) :
    Follows [.operator operator] [.operator operator]
      (stop? (operator.applyBinary left right)) := by
  cases hresult : operator.applyBinary left right with
  | ok value => exact follows_bound rfl
  | error error =>
      obtain ⟨hoperands, rfl⟩ := Token.applyBinary_error h hresult
      exact follows_stop (.operands hoperands)

section

variable {names : Names} {scopes : Scopes} {machine : Machine}

theorem follows_found (h : Tracks names scopes) (hrep : Represents scopes machine) {name : Token}
    (hfound : scopes.get? name.lexeme ≠ none) :
    Follows [.name name (names.scope? name.lexeme)] [.name name (machine.scope? name.lexeme)]
      none := by
  rw [h.scope? hrep]
  apply follows_bound
  cases hscope : names.scope? name.lexeme with
  | none => exact absurd ((h.scope?_eq_none_iff _).mp hscope) hfound
  | some place => rfl

theorem follows_unbound (h : Tracks names scopes) (hrep : Represents scopes machine) {name : Token}
    (hunbound : scopes.get? name.lexeme = none) :
    Follows [.name name (names.scope? name.lexeme)] [.name name (machine.scope? name.lexeme)]
      (some (undefined name)) := by
  rw [h.scope? hrep, (h.scope?_eq_none_iff _).mpr hunbound]
  exact follows_stop .unbound

end

end Resolution

open Resolution

/-! ## Expressions and statements -/

theorem Stmt.below_binding (stmt : Stmt) (names : Names) :
    (stmt.binding names).below = names.below := by
  cases stmt <;> rfl

namespace Scoping

/-- The run keeps to the names, and visits the sites as far as it gets. -/
structure Visits (names : Names) (scopes : Scopes) (sites visits : List Site)
    (stop : Option RuntimeError) : Prop where
  tracks : Tracks names scopes
  follows : Follows sites visits stop

theorem Evaluates.visits {scopes scopes' : Scopes} {expr : Expr}
    {result : Except RuntimeError Value} (h : Evaluates scopes expr scopes' result)
    (hwell : expr.WellFormed) {names : Names} (htracks : Tracks names scopes) {machine : Machine}
    (hrep : Represents scopes machine) :
    Visits names scopes' (expr.sites names) (expr.visits machine) (stop? result) := by
  induction h generalizing machine with
  | literal => exact ⟨htracks, follows_nil⟩
  | grouping _ ih => exact ih hwell htracks hrep
  | @unary _ operator right _ operand hright ih =>
      obtain ⟨htracks', hfollows⟩ := ih hwell.2 htracks hrep
      obtain ⟨machine', hrun, -⟩ := hright.moves hrep
      refine ⟨htracks', ?_⟩
      rw [Expr.sites, Expr.visits, hrun]
      exact hfollows.append (follows_unary hwell.1 operand)
  | unaryStops hright ih =>
      obtain ⟨htracks', hfollows⟩ := ih hwell.2 htracks hrep
      obtain ⟨machine', hrun, -⟩ := hright.moves hrep
      refine ⟨htracks', ?_⟩
      rw [Expr.sites, Expr.visits, hrun]
      exact hfollows.append_of_stopped _
  | @binary _ left operator right _ _ first second hleft hright ihLeft ihRight =>
      obtain ⟨middle, hrun, hmoves⟩ := hleft.moves hrep
      obtain ⟨machine', hrun', -⟩ := hright.moves hmoves.represents
      obtain ⟨htracks₁, hfirst⟩ := ihLeft hwell.1 htracks hrep
      obtain ⟨htracks₂, hsecond⟩ := ihRight hwell.2.2 htracks₁ hmoves.represents
      refine ⟨htracks₂, ?_⟩
      rw [Expr.sites, Expr.visits, hrun, List.append_assoc]
      simp only [settle, behind, hrun']
      exact hfirst.append (hsecond.append (follows_binary hwell.2.1 first second))
  | leftStops hleft ih =>
      obtain ⟨middle, hrun, -⟩ := hleft.moves hrep
      obtain ⟨htracks₁, hfirst⟩ := ih hwell.1 htracks hrep
      refine ⟨htracks₁, ?_⟩
      rw [Expr.sites, Expr.visits, hrun, List.append_assoc]
      exact hfirst.append_of_stopped _
  | rightStops hleft hright ihLeft ihRight =>
      obtain ⟨middle, hrun, hmoves⟩ := hleft.moves hrep
      obtain ⟨machine', hrun', -⟩ := hright.moves hmoves.represents
      obtain ⟨htracks₁, hfirst⟩ := ihLeft hwell.1 htracks hrep
      obtain ⟨htracks₂, hsecond⟩ := ihRight hwell.2.2 htracks₁ hmoves.represents
      refine ⟨htracks₂, ?_⟩
      rw [Expr.sites, Expr.visits, hrun, List.append_assoc]
      simp only [settle, behind, hrun']
      exact hfirst.append (hsecond.append_of_stopped _)
  | reference hget => exact ⟨htracks, follows_found htracks hrep (by simp [hget])⟩
  | unbound hget => exact ⟨htracks, follows_unbound htracks hrep hget⟩
  | assign hright hassign ih =>
      obtain ⟨htracks', hfollows⟩ := ih hwell.2 htracks hrep
      obtain ⟨after, hrun, hmoves⟩ := hright.moves hrep
      refine ⟨htracks'.assign hassign, ?_⟩
      rw [Expr.sites, Expr.visits, hrun]
      refine hfollows.append (follows_found htracks' hmoves.represents ?_)
      rw [Ne, ← assign?_eq_none_iff, hassign]
      simp
  | assignStops hright ih =>
      obtain ⟨htracks', hfollows⟩ := ih hwell.2 htracks hrep
      obtain ⟨after, hrun, -⟩ := hright.moves hrep
      refine ⟨htracks', ?_⟩
      rw [Expr.sites, Expr.visits, hrun]
      exact hfollows.append_of_stopped _
  | assignUnbound hright hassign ih =>
      obtain ⟨htracks', hfollows⟩ := ih hwell.2 htracks hrep
      obtain ⟨after, hrun, hmoves⟩ := hright.moves hrep
      refine ⟨htracks', ?_⟩
      rw [Expr.sites, Expr.visits, hrun]
      have hunbound := (assign?_eq_none_iff _ _ _).mp hassign
      exact hfollows.append (follows_unbound htracks' hmoves.represents hunbound)

mutual

theorem Performs.visits {scopes scopes' : Scopes} {stmt : Stmt} {lines : List String}
    {error : Option RuntimeError} {names : Names} {machine : Machine} (hwell : stmt.WellFormed)
    (htracks : Tracks names scopes) (hrep : Represents scopes machine) :
    Performs scopes stmt scopes' lines error →
      (error = none → Tracks (stmt.binding names) scopes') ∧
        Follows (stmt.sites names) (stmt.visits machine) error
  | .expression hvalue => by
      obtain ⟨htracks', hfollows⟩ := hvalue.visits hwell htracks hrep
      exact ⟨fun _ => htracks', hfollows⟩
  | .expressionStops hvalue => by
      obtain ⟨-, hfollows⟩ := hvalue.visits hwell htracks hrep
      exact ⟨by simp, hfollows⟩
  | .print hvalue => by
      obtain ⟨htracks', hfollows⟩ := hvalue.visits hwell htracks hrep
      exact ⟨fun _ => htracks', hfollows⟩
  | .printStops hvalue => by
      obtain ⟨-, hfollows⟩ := hvalue.visits hwell htracks hrep
      exact ⟨by simp, hfollows⟩
  | @Performs.declare _ name => ⟨fun _ => htracks.declare name.lexeme .nil, follows_nil⟩
  | @Performs.declareWith _ name _ _ value hvalue => by
      obtain ⟨htracks', hfollows⟩ := hvalue.visits hwell.2 htracks hrep
      exact ⟨fun _ => htracks'.declare name.lexeme value, hfollows⟩
  | .initialStops hvalue => by
      obtain ⟨-, hfollows⟩ := hvalue.visits hwell.2 htracks hrep
      exact ⟨by simp, hfollows⟩
  | .block hbody => by
      obtain ⟨htracks', hfollows⟩ := Executes.visits hwell htracks.under hrep.enterBlock hbody
      refine ⟨fun hnone => ?_, hfollows⟩
      -- What the body declared is gone with its frame; the sets below have not changed.
      obtain ⟨top, htop⟩ := htracks' hnone
      exact htop.of_under

theorem Executes.visits {scopes scopes' : Scopes} {stmts : List Stmt} {lines : List String}
    {error : Option RuntimeError} {names : Names} {machine : Machine}
    (hwell : Stmt.AllWellFormed stmts) (htracks : Tracks names scopes)
    (hrep : Represents scopes machine) :
    Executes scopes stmts scopes' lines error →
      (error = none → ∃ top, Tracks ⟨top, names.below⟩ scopes') ∧
        Follows (Stmt.allSites names stmts) (Stmt.allVisits stmts machine) error
  | .done => ⟨fun _ => ⟨names.top, htracks⟩, follows_nil⟩
  | @Executes.next _ first _ _ _ _ _ _ hfirst hrest => by
      have htraced := hrep.record (.execute first.kind)
      obtain ⟨middle, hrun, hmoves⟩ := Performs.moves htraced hfirst
      obtain ⟨htracks₁, hfollows⟩ := Performs.visits hwell.1 htracks htraced hfirst
      obtain ⟨htracks₂, hfollows'⟩ :=
        Executes.visits hwell.2 (htracks₁ rfl) hmoves.represents hrest
      rw [Stmt.below_binding] at htracks₂
      refine ⟨htracks₂, ?_⟩
      rw [Stmt.allSites, Stmt.allVisits, hrun]
      exact hfollows.append hfollows'
  | @Executes.stops _ first _ _ _ _ hfirst => by
      have htraced := hrep.record (.execute first.kind)
      obtain ⟨middle, hrun, -⟩ := Performs.moves htraced hfirst
      obtain ⟨-, hfollows⟩ := Performs.visits hwell.1 htracks htraced hfirst
      refine ⟨by simp, ?_⟩
      rw [Stmt.allSites, Stmt.allVisits, hrun]
      exact hfollows.append_of_stopped _

end

end Scoping

end LoxLang

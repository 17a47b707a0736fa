import LoxLang.Proofs.Syntax.Placement
import LoxLang.Proofs.Syntax.Programs

/-!
# The calls that read declarations

Reading a text reads declarations one after the other, and those of blocks inside them.
Every mistake is reported by one of these calls itself, and a call that drops its
declaration has reported one mistake for it.
-/

namespace LoxLang

open Reply

theorem Stmt.readDeclaration_of_leftBrace {token : Token} (h : token.kind = .leftBrace)
    (rest : List Token) :
    readDeclaration token rest = ((readBlock rest).map block).loosen.declared := by
  rw [readDeclaration, if_neg (by simp [h]), if_neg (by simp [h]), if_pos h]

theorem Targets.countP_eq_zero {tokens rest : List Token} {errors : List SyntaxError}
    (h : Targets tokens rest errors) : errors.countP (·.cause.isPanic) = 0 := by
  rw [List.countP_eq_zero]
  intro error hmem
  rw [h.cause error hmem]
  decide

theorem Reply.Placed.countP_errors {α : Type} {n : Nat} {tokens : List Token} {reply : Reply α n}
    (placed : reply.Placed tokens) :
    reply.errors.countP (·.cause.isPanic) = if reply.value?.isNone then 1 else 0 := by
  cases reply with
  | accepted value rest errors shorter => exact Targets.countP_eq_zero placed
  | refused rest errors notLonger =>
      obtain ⟨earlier, cause, rfl, hcause, htargets⟩ := placed
      simp [Reply.errors, value?, htargets.countP_eq_zero, hcause]

namespace Recovery

/-- A call that reads a declaration, with the tokens that are left where it is made. -/
structure Call where
  token : Token
  behind : List Token

namespace Call

def tokens (call : Call) : List Token :=
  call.token :: call.behind

def declared (call : Call) : Declared :=
  (Stmt.readDeclaration call.token call.behind).1

/-- What a block reports beside the mistakes in its declarations: that it is not closed. -/
def unclosed (body : List Token) : List SyntaxError :=
  if (Stmt.readBlock body).value?.isNone then [⟨.closingBrace, []⟩] else []

/-- The mistakes that the call reports itself, not through a call inside it. -/
def own (call : Call) : List SyntaxError :=
  if call.token.kind = .leftBrace then unclosed call.behind
  else (Stmt.readSimple call.token call.behind).errors

end Call

mutual

/-- The calls made for a declaration in the order in which they come back, itself the last. -/
def callsFor (token : Token) (tokens : List Token) : List Call :=
  (if token.kind = .leftBrace then callsInBlock tokens else []) ++ [⟨token, tokens⟩]
termination_by (tokens.length, 1)

def callsInBlock (tokens : List Token) : List Call :=
  match tokens with
  | [] => []
  | token :: more =>
      if token.kind = .rightBrace then []
      else
        let ⟨first, _⟩ := Stmt.readDeclaration token more
        callsFor token more ++ callsInBlock first.rest
termination_by (tokens.length, 0)

end

def callsIn : List Token → List Call
  | [] => []
  | token :: more =>
      let ⟨first, _⟩ := Stmt.readDeclaration token more
      callsFor token more ++ callsIn first.rest
termination_by tokens => tokens.length

/-! ## Every mistake is reported by one call -/

mutual

theorem flatMap_own_callsFor (token : Token) (rest : List Token) :
    (callsFor token rest).flatMap Call.own = (Stmt.readDeclaration token rest).1.errors := by
  rw [callsFor, List.flatMap_append, List.flatMap_singleton, Call.own]
  by_cases hbrace : token.kind = .leftBrace
  · rw [Stmt.readDeclaration_of_leftBrace hbrace, errors_declared]
    simp only [hbrace, if_true, Reply.loosen, errors_widen, errors_map]
    exact flatMap_own_callsInBlock rest
  · rw [Stmt.readDeclaration_eq_readSimple hbrace, errors_declared]
    simp [hbrace]
termination_by (rest.length, 1)

theorem flatMap_own_callsInBlock (tokens : List Token) :
    (callsInBlock tokens).flatMap Call.own ++ Call.unclosed tokens = (Stmt.readBlock tokens).errors := by
  match tokens with
  | [] =>
      rw [callsInBlock, Call.unclosed, Stmt.readBlock]
      rfl
  | token :: rest =>
      have shorter := (Stmt.readDeclaration token rest).2
      rw [callsInBlock, Call.unclosed, Stmt.readBlock]
      split
      · rfl
      · have hfirst := flatMap_own_callsFor token rest
        have hothers := flatMap_own_callsInBlock (Stmt.readDeclaration token rest).1.rest
        simp only [List.flatMap_append, errors_widen, errors_after, errors_map, value?_widen,
          value?_after, value?_map, Option.isNone_map, List.append_assoc]
        rw [hfirst, ← hothers, Call.unclosed]
termination_by (tokens.length, 0)

end

theorem flatMap_own_callsIn (tokens : List Token) :
    (callsIn tokens).flatMap Call.own = (Stmt.readDeclarations tokens).flatMap Declared.errors := by
  match tokens with
  | [] => rw [callsIn, Stmt.readDeclarations]; rfl
  | token :: rest =>
      have shorter := (Stmt.readDeclaration token rest).2
      rw [callsIn, Stmt.readDeclarations, List.flatMap_append, List.flatMap_cons,
        flatMap_own_callsFor, flatMap_own_callsIn]
termination_by tokens.length

/-! ## One mistake for each dropped declaration -/

theorem Call.countP_own (call : Call) :
    call.own.countP (·.cause.isPanic) = if call.declared.node.isNone then 1 else 0 := by
  unfold own declared
  by_cases hbrace : call.token.kind = .leftBrace
  · rw [Stmt.readDeclaration_of_leftBrace hbrace, node_declared, if_pos hbrace, Call.unclosed]
    simp only [Reply.loosen, value?_widen, value?_map, Option.isNone_map]
    split <;> rfl
  · rw [Stmt.readDeclaration_eq_readSimple hbrace, node_declared, if_neg hbrace]
    exact (Stmt.readSimple_placed call.token call.behind).countP_errors

theorem countP_flatMap_own (calls : List Call) :
    (calls.flatMap Call.own).countP (·.cause.isPanic) = calls.countP (·.declared.node.isNone) := by
  induction calls with
  | nil => rfl
  | cons call others ih =>
      rw [List.flatMap_cons, List.countP_append, call.countP_own, ih, List.countP_cons]
      omega

theorem skipStatement_suffix (previous : Token) (tokens : List Token) :
    skipStatement previous tokens <:+ tokens := by
  fun_induction skipStatement previous tokens with
  | case1 => exact List.suffix_refl _
  | case2 => exact List.suffix_refl _
  | case3 previous token rest hgoes ih => exact ih.trans (List.suffix_cons _ _)

theorem recover_suffix (tokens : List Token) : recover tokens <:+ tokens := by
  cases tokens with
  | nil => exact List.suffix_refl _
  | cons token rest => exact (skipStatement_suffix token rest).trans (List.suffix_cons _ _)

theorem Call.target_of_own {call : Call} {error : SyntaxError} (hmem : error ∈ call.own)
    (hcause : error.cause = .assignmentTarget) :
    ∃ equals more, error.unread = equals :: more ∧ equals.kind = .equal ∧
      call.declared.rest <:+ more ∧
      ∀ mistake ∈ call.own, mistake.cause.isPanic → mistake.unread <:+ more := by
  unfold own at hmem ⊢
  by_cases hbrace : call.token.kind = .leftBrace
  · rw [if_pos hbrace, unclosed] at hmem
    split at hmem
    · obtain rfl := List.mem_singleton.mp hmem
      cases hcause
    · cases hmem
  rw [if_neg hbrace] at hmem ⊢
  rw [declared, Stmt.readDeclaration_eq_readSimple hbrace]
  have hplaced := Stmt.readSimple_placed call.token call.behind
  cases hreply : Stmt.readSimple call.token call.behind with
  | accepted value rest errors shorter =>
      rw [hreply] at hmem hplaced
      obtain ⟨equals, more, hunread, hkind, -, hmore⟩ := Targets.place hplaced error hmem
      refine ⟨equals, more, hunread, hkind, hmore, ?_⟩
      intro mistake hmistake hpanic
      simp [Targets.cause hplaced mistake hmistake, SyntaxError.Cause.isPanic] at hpanic
  | refused rest errors notLonger =>
      rw [hreply] at hmem hplaced
      obtain ⟨earlier, cause, rfl, hpanic, htargets⟩ := hplaced
      rcases List.mem_append.mp hmem with hmem | hmem
      · obtain ⟨equals, more, hunread, hkind, -, hmore⟩ := htargets.place error hmem
        refine ⟨equals, more, hunread, hkind, (recover_suffix rest).trans hmore, ?_⟩
        intro mistake hmistake hpanic
        rcases List.mem_append.mp hmistake with hmistake | hmistake
        · simp [htargets.cause mistake hmistake, SyntaxError.Cause.isPanic] at hpanic
        · obtain rfl := List.mem_singleton.mp hmistake
          exact hmore
      · obtain rfl := List.mem_singleton.mp hmem
        obtain rfl := hcause
        cases hpanic

end Recovery

end LoxLang

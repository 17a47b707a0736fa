import LoxLang.Proofs.Execution.Steps
import LoxLang.Proofs.Lockstep.Runs

/-!
# Alike programs on machines that no step tells apart

A step looks at the arena and the current frame of a machine and at nothing else.  So
programs that are alike do the same on machines that agree in these: both end with the
same value or the same fault, but for the token that a runtime error is about.
-/

namespace LoxLang

variable {M : Machine → Machine → Prop} {R : Token → Token → Prop}

inductive Fault.Alike (R : Token → Token → Prop) : Fault → Fault → Prop
  | runtime {error error'} : error.Alike R error' → Fault.Alike R (.runtime error) (.runtime error')
  | same {fault} : Fault.Alike R fault fault

theorem Fault.Alike.eq {fault fault' : Fault} (h : Fault.Alike (· = ·) fault fault') :
    fault = fault' := by
  cases h with
  | same => rfl
  | @runtime error error' herror =>
      obtain ⟨cause, token⟩ := error
      obtain ⟨cause', token'⟩ := error'
      have hcause : cause' = cause := herror.cause
      have htoken : token = token' := herror.token
      rw [hcause, htoken]

/-- No step tells machines apart that are so related, and the same step leaves them so. -/
structure Machine.Indistinct (M : Machine → Machine → Prop) : Prop where
  arena {machine machine'} : M machine machine' → machine'.arena = machine.arena
  frame {machine machine'} : M machine machine' → machine'.frame = machine.frame
  withArena {machine machine'} (arena : Arena) :
    M machine machine' → M { machine with arena } { machine' with arena }
  withFrame {machine machine'} (frame : Nat) :
    M machine machine' → M { machine with frame } { machine' with frame }
  printing {machine machine'} (line : String) :
    M machine machine' →
      M { machine with output := machine.output ++ [line] }
        { machine' with output := machine'.output ++ [line] }
  record {machine machine'} (event : Event) :
    M machine machine' → M (machine.record event) (machine'.record event)

theorem Machine.indistinct_eq : Indistinct (· = ·) where
  arena := fun h => by rw [h]
  frame := fun h => by rw [h]
  withArena := fun _ h => by rw [h]
  withFrame := fun _ h => by rw [h]
  printing := fun _ h => by rw [h]
  record := fun _ h => by rw [h]

namespace Run

inductive AnswersAlike {α : Type} (R : Token → Token → Prop) :
    Except Fault α → Except Fault α → Prop
  | ok {value} : AnswersAlike R (.ok value) (.ok value)
  | error {fault fault'} : fault.Alike R fault' → AnswersAlike R (.error fault) (.error fault')

inductive EndsAlike {α : Type} (M : Machine → Machine → Prop) (R : Token → Token → Prop) :
    EStateM.Result Fault Machine α → EStateM.Result Fault Machine α → Prop
  | ok {value machine machine'} :
      M machine machine' → EndsAlike M R (.ok value machine) (.ok value machine')
  | error {fault fault' machine machine'} :
      fault.Alike R fault' → M machine machine' →
      EndsAlike M R (.error fault machine) (.error fault' machine')

def Alike {α : Type} (M : Machine → Machine → Prop) (R : Token → Token → Prop)
    (run run' : Run α) : Prop :=
  ∀ machine machine', M machine machine' → EndsAlike M R (run machine) (run' machine')

/-! ## Ways to put runs together -/

section

variable {α β : Type} {run run' : Run α}

theorem alike_pure (value : α) : Alike M R (pure value) (pure value) :=
  fun _ _ h => .ok h

theorem alike_throw (fault : Fault) : Alike M R (throw fault : Run α) (throw fault) :=
  fun _ _ h => .error .same h

theorem Alike.bind {next next' : α → Run β} (h : Alike M R run run')
    (hnext : ∀ value, Alike M R (next value) (next' value)) :
    Alike M R (run >>= next) (run' >>= next') := by
  intro machine machine' hmachine
  have hrun := h machine machine' hmachine
  rw [bind_apply, bind_apply]
  generalize run machine = ended at hrun ⊢
  generalize run' machine' = ended' at hrun ⊢
  cases hrun with
  | ok hmiddle => exact hnext _ _ _ hmiddle
  | error hfault hended => exact .error hfault hended

theorem alike_ofResult {result result' : Except Fault α} (h : AnswersAlike R result result') :
    Alike M R (ofResult result) (ofResult result') := by
  intro machine machine' hmachine
  cases h with
  | ok => exact .ok hmachine
  | error hfault => exact .error hfault hmachine

theorem alike_operation {result result' : Except RuntimeError Value}
    (h : ResultAlike R result result') : Alike M R (operation result) (operation result') := by
  apply alike_ofResult
  cases h with
  | ok => exact .ok
  | error herror => exact .error (.runtime herror)

theorem alike_get_bind {next next' : Machine → Run α}
    (h : ∀ machine machine', M machine machine' → Alike M R (next machine) (next' machine')) :
    Alike M R (get >>= next) (get >>= next') :=
  fun machine machine' hmachine => h machine machine' hmachine machine machine' hmachine

theorem Alike.ensuring {last last' : Run Unit} (h : Alike M R run run')
    (hlast : Alike M R last last') : Alike M R (ensuring run last) (ensuring run' last') := by
  intro machine machine' hmachine
  have hrun := h machine machine' hmachine
  unfold Run.ensuring
  generalize run machine = ended at hrun ⊢
  generalize run' machine' = ended' at hrun ⊢
  cases hrun with
  | @ok value middle middle' hmiddle =>
      have hend := hlast middle middle' hmiddle
      dsimp only
      generalize last middle = ended at hend ⊢
      generalize last' middle' = ended' at hend ⊢
      cases hend with
      | ok hended => exact .ok hended
      | error hfault hended => exact .error hfault hended
  | @error fault fault' middle middle' hfault hmiddle =>
      have hend := hlast middle middle' hmiddle
      dsimp only
      generalize last middle = ended at hend ⊢
      generalize last' middle' = ended' at hend ⊢
      cases hend with
      | ok hended => exact .error hfault hended
      | error hfault' hended => exact .error hfault' hended

/-! ## What a run can do to a machine -/

variable (hmachines : Machine.Indistinct M)

include hmachines

theorem alike_emit (event : Event) : Alike M R (emit event) (emit event) :=
  fun _ _ h => .ok (hmachines.record event h)

theorem alike_printLine (line : String) : Alike M R (printLine line) (printLine line) :=
  fun _ _ h => .ok (hmachines.printing line h)

theorem alike_updateArena {change change' : Arena → Except Fault Arena}
    (h : ∀ arena, AnswersAlike R (change arena) (change' arena)) :
    Alike M R (updateArena change) (updateArena change') := by
  intro machine machine' hmachine
  have hchange := h machine.arena
  rw [updateArena_apply, updateArena_apply, hmachines.arena hmachine]
  generalize change machine.arena = result at hchange ⊢
  generalize change' machine.arena = result' at hchange ⊢
  cases hchange with
  | @ok arena => exact .ok (hmachines.withArena arena hmachine)
  | error hfault => exact .error hfault hmachine

theorem alike_sameUpdate (change : Arena → Except Fault Arena) :
    Alike M R (updateArena change) (updateArena change) := by
  refine alike_updateArena hmachines fun arena => ?_
  cases change arena with
  | ok changed => exact .ok
  | error fault => exact .error .same

theorem alike_enterFrame (frame : Nat) : Alike M R (enterFrame frame) (enterFrame frame) :=
  fun _ _ h => .ok (hmachines.withFrame frame h)

theorem alike_pushFrame : Alike M R pushFrame pushFrame := by
  intro machine machine' hmachine
  have hpush : machine'.arena.push (some machine'.frame) =
      machine.arena.push (some machine.frame) := by
    rw [hmachines.arena hmachine, hmachines.frame hmachine]
  change EndsAlike M R
    (.ok (machine.arena.push (some machine.frame)).1
      { machine with arena := (machine.arena.push (some machine.frame)).2 })
    (.ok (machine'.arena.push (some machine'.frame)).1
      { machine' with arena := (machine'.arena.push (some machine'.frame)).2 })
  rw [hpush]
  exact .ok (hmachines.withArena _ hmachine)

theorem Alike.inBlock {body body' : Run Unit} (h : Alike M R body body') :
    Alike M R (inBlock body) (inBlock body') := by
  refine alike_get_bind fun machine machine' hmachine => ?_
  rw [hmachines.frame hmachine]
  refine (alike_pushFrame hmachines).bind fun inner => ?_
  refine (alike_emit hmachines _).bind fun _ => (alike_enterFrame hmachines inner).bind fun _ => ?_
  refine h.ensuring ((alike_enterFrame hmachines _).bind fun _ => ?_)
  exact (alike_sameUpdate hmachines _).bind fun _ => alike_emit hmachines _

end

end Run

open Run

/-! ## Names -/

section

variable {name name' : Token}

theorem Arena.Lookup.fault_alike (h : R name name') (found : Lookup) :
    (found.fault name).Alike R (found.fault name') := by
  cases found with
  | bound place value => exact .runtime ⟨rfl, h⟩
  | unbound => exact .runtime ⟨rfl, h⟩
  | dangling => exact .same
  | endless => exact .same

theorem Arena.get_alike (same : name.SameButLine name') (h : R name name') (arena : Arena)
    (index : Int) :
    AnswersAlike R (arena.get index name) (arena.get index name') := by
  unfold Arena.get
  rw [same.lexeme]
  cases arena.lookup index name.lexeme with
  | bound place value => exact .ok
  | _ => exact .error (Lookup.fault_alike h _)

theorem Arena.assign_alike (same : name.SameButLine name') (h : R name name') (arena : Arena)
    (index : Int) (value : Value) :
    AnswersAlike R (arena.assign index name value) (arena.assign index name' value) := by
  unfold Arena.assign
  rw [same.lexeme]
  cases arena.lookup index name.lexeme with
  | bound place value => exact .ok
  | _ => exact .error (Lookup.fault_alike h _)

end

/-! ## Expressions and statements -/

theorem Stmt.Alike.kind_eq {stmt stmt' : Stmt} (h : stmt.Alike R stmt') :
    stmt'.kind = stmt.kind := by
  cases h <;> rfl

theorem Run.alike_bindName (hmachines : Machine.Indistinct M) (name : Token) (value : Value) :
    Run.Alike M R
      (do let frame := (← get).frame
          updateArena (·.define frame name.lexeme value)
          emit (.declare name.lexeme value frame) : Run Unit)
      (do let frame := (← get).frame
          updateArena (·.define frame name.lexeme value)
          emit (.declare name.lexeme value frame) : Run Unit) := by
  refine alike_get_bind fun machine machine' hmachine => ?_
  rw [hmachines.frame hmachine]
  exact (alike_sameUpdate hmachines _).bind fun _ => alike_emit hmachines _

theorem Expr.Alike.evaluate (hmachines : Machine.Indistinct M)
    (same : ∀ {token token'}, R token token' → token.SameButLine token') {expr expr' : Expr}
    (h : expr.Alike R expr') :
    Run.Alike M R expr.evaluate expr'.evaluate := by
  induction h with
  | literal => exact alike_pure _
  | grouping _ ih => exact ih
  | unary hoperator _ ih =>
      rw [Expr.evaluate, Expr.evaluate]
      refine ih.bind fun operand => alike_operation ?_
      exact Token.applyUnary_alike (same hoperator) hoperator _
  | binary _ hoperator _ ihLeft ihRight =>
      rw [Expr.evaluate, Expr.evaluate]
      refine ihLeft.bind fun first => ihRight.bind fun second => alike_operation ?_
      exact Token.applyBinary_alike (same hoperator) hoperator _ _
  | reference hname =>
      rw [Expr.evaluate, Expr.evaluate]
      refine alike_get_bind fun machine machine' hmachine => ?_
      rw [hmachines.arena hmachine, hmachines.frame hmachine]
      exact alike_ofResult (Arena.get_alike (same hname) hname _ _)
  | assign hname _ ih =>
      rw [Expr.evaluate, Expr.evaluate, (same hname).lexeme]
      refine ih.bind fun value => alike_get_bind fun machine machine' hmachine => ?_
      rw [hmachines.frame hmachine]
      have hassign := fun arena => Arena.assign_alike (same hname) hname arena machine.frame value
      refine (alike_updateArena hmachines hassign).bind fun _ => ?_
      exact (alike_emit hmachines _).bind fun _ => alike_pure value
  | stray => exact alike_throw _

mutual

theorem Stmt.Alike.perform (hmachines : Machine.Indistinct M)
    (same : ∀ {token token'}, R token token' → token.SameButLine token') {stmt stmt' : Stmt}
    (h : stmt.Alike R stmt') :
    Run.Alike M R stmt.perform stmt'.perform := by
  cases h with
  | expression hvalue =>
      rw [Stmt.perform, Stmt.perform]
      exact (hvalue.evaluate hmachines same).bind fun _ => alike_pure ()
  | print hvalue =>
      rw [Stmt.perform, Stmt.perform]
      exact (hvalue.evaluate hmachines same).bind fun _ => alike_printLine hmachines _
  | declare hname =>
      rw [Stmt.perform, Stmt.perform, (same hname).lexeme]
      exact (alike_pure Value.nil).bind (alike_bindName hmachines _)
  | declareWith hname hinitial =>
      rw [Stmt.perform, Stmt.perform, (same hname).lexeme]
      exact (hinitial.evaluate hmachines same).bind (alike_bindName hmachines _)
  | block hbody =>
      rw [Stmt.perform, Stmt.perform]
      exact (hbody.executeAll hmachines same).inBlock hmachines
  | stray => exact alike_throw _

theorem Stmt.AllAlike.executeAll (hmachines : Machine.Indistinct M)
    (same : ∀ {token token'}, R token token' → token.SameButLine token')
    {stmts stmts' : List Stmt} (h : Stmt.AllAlike R stmts stmts') :
    Run.Alike M R (Stmt.executeAll stmts) (Stmt.executeAll stmts') := by
  cases h with
  | nil => exact alike_pure ()
  | cons hfirst hrest =>
      rw [Stmt.executeAll, Stmt.executeAll, hfirst.kind_eq]
      refine (alike_emit hmachines _).bind fun _ => ?_
      exact (hfirst.perform hmachines same).bind fun _ => hrest.executeAll hmachines same

end

end LoxLang

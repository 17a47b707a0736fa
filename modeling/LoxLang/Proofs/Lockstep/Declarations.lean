import LoxLang.Proofs.Lockstep.Expressions
import LoxLang.Syntax.Program

/-!
# Reading declarations in lockstep

A declaration other than a block ends at a semicolon or is given up in front of one,
so the texts need to be related only up to there.  Blocks and recovery read on behind
semicolons, and are in lockstep on texts that are related throughout.
-/

namespace LoxLang

open Reply

variable {R : Token → Token → Prop} {S T : List Token → List Token → Prop}

namespace Stmt

/-! ## Declarations other than blocks -/

theorem endedBy_alike (lockstep : Lockstep R S T) {node node' : Stmt}
    {cause : SyntaxError.Cause} {tokens tokens' : List Token} (hnode : Alike R node node')
    (h : S tokens tokens') :
    (node.endedBy cause tokens).Alike (Alike R) T S (node'.endedBy cause tokens') := by
  have hend : (expect .semicolon cause tokens).Alike R T S (expect .semicolon cause tokens') :=
    alike_expect h (lockstep.heads h) lockstep.same lockstep.behind
  exact hend.loosen.map fun _ _ _ => hnode

theorem readVariable_alike (lockstep : Lockstep R S T) {tokens tokens' : List Token}
    (h : S tokens tokens') :
    (readVariable tokens).Alike (Alike R) T S (readVariable tokens') := by
  have hname : (expect .identifier .variableName tokens).Alike R S S
      (expect .identifier .variableName tokens') :=
    alike_expect h (lockstep.heads h) lockstep.same fun hcons hkind =>
      lockstep.tail hcons (by simp [hkind])
  apply hname.andThen
  intro name name' middle middle' shorter shorter' hname hmiddle
  cases lockstep.heads hmiddle with
  | nil => exact endedBy_alike lockstep (.declare hname) hmiddle
  | @cons equals equals' rest rest' hequals =>
      simp only [(lockstep.same hequals).kind]
      split
      next hkind =>
        have hrest := lockstep.tail hmiddle (by simp [hkind])
        refine Alike.loosen (Alike.loosen ?_)
        refine (Expr.read_alike lockstep hrest).andThen
          fun initial initial' after after' _ _ hinitial hafter => ?_
        exact endedBy_alike lockstep (.declareWith hname hinitial) hafter
      next => exact endedBy_alike lockstep (.declare hname) hmiddle

theorem readPrint_alike (lockstep : Lockstep R S T) {tokens tokens' : List Token}
    (h : S tokens tokens') : (readPrint tokens).Alike (Alike R) T S (readPrint tokens') :=
  (Expr.read_alike lockstep h).andThen fun _ _ _ _ _ _ hvalue hrest =>
    endedBy_alike lockstep (.print hvalue) hrest

theorem readExpression_alike (lockstep : Lockstep R S T) {tokens tokens' : List Token}
    (h : S tokens tokens') :
    (readExpression tokens).Alike (Alike R) T S (readExpression tokens') :=
  (Expr.read_alike lockstep h).andThen fun _ _ _ _ _ _ hvalue hrest =>
    endedBy_alike lockstep (.expression hvalue) hrest

def readSimple (token : Token) (rest : List Token) : Reply Stmt (rest.length + 1) :=
  if token.kind = .wordVar then (readVariable rest).loosen
  else if token.kind = .wordPrint then (readPrint rest).loosen
  else readExpression (token :: rest)

theorem readDeclaration_eq_readSimple {token : Token} (h : token.kind ≠ .leftBrace)
    (rest : List Token) : readDeclaration token rest = (readSimple token rest).declared := by
  rw [readDeclaration, readSimple, if_neg h]

theorem readSimple_alike (lockstep : Lockstep R S T) {token token' : Token}
    {rest rest' : List Token} (h : S (token :: rest) (token' :: rest')) :
    (readSimple token rest).Alike (Alike R) T S (readSimple token' rest') := by
  cases lockstep.heads h with
  | cons htoken =>
      simp only [readSimple, (lockstep.same htoken).kind]
      split
      next hvar => exact (readVariable_alike lockstep (lockstep.tail h (by simp [hvar]))).loosen
      next =>
        split
        next hprint => exact (readPrint_alike lockstep (lockstep.tail h (by simp [hprint]))).loosen
        next => exact readExpression_alike lockstep h

end Stmt

/-! ## Texts related throughout -/

structure Declared.Alike (R : Token → Token → Prop) (S : List Token → List Token → Prop)
    (first second : Declared) : Prop where
  node : Option.Rel (Stmt.Alike R) first.node second.node
  rest : S first.rest second.rest
  errors : List.Forall₂ (SyntaxError.Alike S) first.errors second.errors

theorem Lockstep.rest (lockstep : Lockstep R S S) {token token' : Token} {rest rest' : List Token}
    (h : S (token :: rest) (token' :: rest')) : S rest rest' := by
  by_cases hkind : token.kind = .semicolon
  · exact lockstep.behind h hkind
  · exact lockstep.tail h hkind

theorem skipStatement_alike (lockstep : Lockstep R S S) {previous previous' : Token}
    (hprevious : R previous previous') {tokens tokens' : List Token} (h : S tokens tokens') :
    S (skipStatement previous tokens) (skipStatement previous' tokens') := by
  induction tokens generalizing previous previous' tokens' with
  | nil =>
      cases lockstep.heads h with
      | nil => exact h
  | cons token rest ih =>
      cases lockstep.heads h with
      | cons htoken =>
          simp only [skipStatement, (lockstep.same hprevious).kind, (lockstep.same htoken).kind]
          split
          · exact h
          · exact ih htoken (lockstep.rest h)

theorem recover_alike (lockstep : Lockstep R S S) {tokens tokens' : List Token}
    (h : S tokens tokens') : S (recover tokens) (recover tokens') := by
  cases lockstep.heads h with
  | nil => exact h
  | cons htoken => exact skipStatement_alike lockstep htoken (lockstep.rest h)

theorem Reply.Alike.declared (lockstep : Lockstep R S S) {n n' : Nat} {reply : Reply Stmt (n + 1)}
    {reply' : Reply Stmt (n' + 1)} (alike : reply.Alike (Stmt.Alike R) S S reply') :
    Declared.Alike R S reply.declared.1 reply'.declared.1 := by
  cases reply with
  | accepted value rest errors shorter =>
      cases reply' with
      | accepted value' rest' errors' shorter' =>
          obtain ⟨hvalue, hrest, herrors⟩ := alike
          exact ⟨.some hvalue, hrest, herrors⟩
      | refused => exact alike.elim
  | refused rest errors notLonger =>
      cases reply' with
      | accepted => exact alike.elim
      | refused rest' errors' notLonger' =>
          obtain ⟨hrest, herrors⟩ := alike
          exact ⟨.none, recover_alike lockstep hrest, herrors⟩

namespace Stmt

theorem AllAlike.of_rel {node node' : Option Stmt} (h : Option.Rel (Alike R) node node') :
    AllAlike R node.toList node'.toList := by
  cases h with
  | none => exact .nil
  | some h => exact .cons h .nil

mutual

theorem readDeclaration_alike (lockstep : Lockstep R S S) {token token' : Token}
    {rest rest' : List Token} (h : S (token :: rest) (token' :: rest')) :
    Declared.Alike R S (readDeclaration token rest).1 (readDeclaration token' rest').1 := by
  cases lockstep.heads h with
  | cons htoken =>
      have hkind := (lockstep.same htoken).kind
      by_cases hbrace : token.kind = .leftBrace
      · have hblock := readBlock_alike lockstep (lockstep.rest h)
        have hrule : ((readBlock rest).map block).loosen.Alike (Alike R) S S
            ((readBlock rest').map block).loosen :=
          (hblock.map fun _ _ hbody => .block hbody).loosen
        rw [readDeclaration, readDeclaration]
        simpa only [hkind, hbrace, reduceCtorEq, if_true, if_false] using hrule.declared lockstep
      · rw [readDeclaration_eq_readSimple hbrace,
          readDeclaration_eq_readSimple (by rw [hkind]; exact hbrace)]
        exact (readSimple_alike lockstep h).declared lockstep
termination_by (rest.length, 1)

theorem readBlock_alike (lockstep : Lockstep R S S) {tokens tokens' : List Token}
    (h : S tokens tokens') :
    (readBlock tokens).Alike (AllAlike R) S S (readBlock tokens') := by
  cases lockstep.heads h with
  | nil =>
      rw [readBlock]
      exact alike_blame h
  | @cons token token' rest rest' htoken =>
      rw [readBlock, readBlock]
      simp only [(lockstep.same htoken).kind]
      split
      next => exact alike_done .nil (lockstep.rest h) .nil
      next =>
        have shorter := (readDeclaration token rest).2
        have hfirst := readDeclaration_alike lockstep h
        have hrest := readBlock_alike lockstep hfirst.rest
        refine Alike.widen (Alike.after (hrest.map fun nodes nodes' hnodes => ?_) hfirst.errors) _ _
        exact (AllAlike.of_rel hfirst.node).append hnodes
termination_by (tokens.length, 0)

end

theorem readDeclarations_alike (lockstep : Lockstep R S S) {tokens tokens' : List Token}
    (h : S tokens tokens') :
    List.Forall₂ (Declared.Alike R S) (readDeclarations tokens) (readDeclarations tokens') := by
  cases lockstep.heads h with
  | nil =>
      rw [readDeclarations]
      exact .nil
  | @cons token token' rest rest' htoken =>
      have shorter := (readDeclaration token rest).2
      have hfirst := readDeclaration_alike lockstep h
      rw [readDeclarations, readDeclarations]
      exact .cons hfirst (readDeclarations_alike lockstep hfirst.rest)
termination_by tokens.length

end Stmt

end LoxLang

import LoxLang.Syntax.Program
import LoxLang.Proofs.Scoping.Semantics
import LoxLang.Proofs.Syntax.Expressions

/-!
# Well-formed trees

Whatever a text is, the trees read from it hold names where names belong and
operators where operators belong.  An expression or a simple statement is given up
for one reason, which is the last error and stands at the first token left.
-/

namespace LoxLang

theorem SyntaxError.Cause.isPanic_iff {cause : SyntaxError.Cause} :
    cause.isPanic ↔ cause.message ≠ "Invalid assignment target." := by
  cases cause <;> decide

def unaryOperators : List TokenKind :=
  [.bang, .minus]

def binaryOperators : List TokenKind :=
  [.bangEqual, .equalEqual, .greater, .greaterEqual, .less, .lessEqual, .minus, .plus, .slash,
    .star]

/--
Expressions stand where they belong, with the operators and names of the grammar.  A
literal is a value as it is: nil, a boolean, a number or a string.
-/
def Expr.WellFormed : Expr → Prop
  | assign name value => name.kind = .identifier ∧ value.WellFormed
  | binary left operator right =>
      left.WellFormed ∧ operator.kind ∈ binaryOperators ∧ right.WellFormed
  | grouping inner => inner.WellFormed
  | literal _ => True
  | unary operator right => operator.kind ∈ unaryOperators ∧ right.WellFormed
  | reference name => name.kind = .identifier
  | stray _ => False

mutual

def Stmt.WellFormed : Stmt → Prop
  | .block body => Stmt.AllWellFormed body
  | .expression value => value.WellFormed
  | .print value => value.WellFormed
  | .declare name none => name.kind = .identifier
  | .declare name (some initial) => name.kind = .identifier ∧ initial.WellFormed
  | .stray _ => False

def Stmt.AllWellFormed : List Stmt → Prop
  | [] => True
  | first :: rest => first.WellFormed ∧ Stmt.AllWellFormed rest

end

theorem Stmt.allWellFormed_iff {stmts : List Stmt} :
    Stmt.AllWellFormed stmts ↔ ∀ stmt ∈ stmts, stmt.WellFormed := by
  induction stmts with
  | nil => simp [Stmt.AllWellFormed]
  | cons first rest ih => simp [Stmt.AllWellFormed, ih]

theorem Expr.WellFormed.proper {expr : Expr} (h : expr.WellFormed) : expr.Proper := by
  induction expr with
  | assign name value ih => exact ih h.2
  | binary left operator right ihLeft ihRight => exact ⟨ihLeft h.1, ihRight h.2.2⟩
  | grouping inner ih => exact ih h
  | literal value => trivial
  | unary operator right ih => exact ih h.2
  | reference name => trivial
  | stray kind => exact h

mutual

theorem Stmt.WellFormed.proper {stmt : Stmt} (h : stmt.WellFormed) : stmt.Proper := by
  match stmt with
  | .block body => exact Stmt.AllWellFormed.proper h
  | .expression value => exact Expr.WellFormed.proper h
  | .print value => exact Expr.WellFormed.proper h
  | .declare name none => trivial
  | .declare name (some initial) => exact Expr.WellFormed.proper h.2
  | .stray kind => exact h

theorem Stmt.AllWellFormed.proper {stmts : List Stmt} (h : Stmt.AllWellFormed stmts) :
    Stmt.AllProper stmts := by
  match stmts with
  | [] => trivial
  | first :: rest => exact ⟨h.1.proper, Stmt.AllWellFormed.proper h.2⟩

end

/-! ## Orderly answers -/

namespace Reply

variable {α β : Type} {m n : Nat} {good : α → Prop} {good' : β → Prop}

/-- A good value and no reason to give up, or one reason, the last error, at the tokens left. -/
def Orderly (good : α → Prop) : Reply α n → Prop
  | accepted value _ errors _ => good value ∧ ∀ error ∈ errors, ¬ error.cause.isPanic
  | refused rest errors _ =>
      ∃ earlier cause, errors = earlier ++ [⟨cause, rest⟩] ∧ cause.isPanic ∧
        ∀ error ∈ earlier, ¬ error.cause.isPanic

theorem orderly_done {value : α} {rest : List Token} {errors : List SyntaxError}
    (hvalue : good value) (herrors : ∀ error ∈ errors, ¬ error.cause.isPanic) :
    (done value rest errors).Orderly good :=
  ⟨hvalue, herrors⟩

theorem orderly_blame {cause : SyntaxError.Cause} {tokens : List Token}
    (hcause : cause.isPanic) :
    (blame cause tokens : Reply α tokens.length).Orderly good :=
  ⟨[], cause, rfl, hcause, by simp⟩

theorem Orderly.widen {reply : Reply α m} (h : m ≤ n) (orderly : reply.Orderly good) :
    (reply.widen h).Orderly good := by
  cases reply <;> exact orderly

theorem Orderly.loosen {reply : Reply α n} (orderly : reply.Orderly good) :
    reply.loosen.Orderly good :=
  orderly.widen _

theorem Orderly.after {reply : Reply α n} {earlier : List SyntaxError}
    (orderly : reply.Orderly good)
    (hearlier : ∀ error ∈ earlier, ¬ error.cause.isPanic) :
    (reply.after earlier).Orderly good := by
  cases reply with
  | accepted value rest errors shorter =>
      obtain ⟨hvalue, herrors⟩ := orderly
      refine ⟨hvalue, ?_⟩
      simp only [List.mem_append]
      rintro error (hmem | hmem)
      · exact hearlier error hmem
      · exact herrors error hmem
  | refused rest errors notLonger =>
      obtain ⟨middle, cause, rfl, hcause, hmiddle⟩ := orderly
      refine ⟨earlier ++ middle, cause, by simp, hcause, ?_⟩
      simp only [List.mem_append]
      rintro error (hmem | hmem)
      · exact hearlier error hmem
      · exact hmiddle error hmem

theorem Orderly.map {reply : Reply α n} {f : α → β} (orderly : reply.Orderly good)
    (hf : ∀ value, good value → good' (f value)) : (reply.map f).Orderly good' := by
  cases reply with
  | accepted value rest errors shorter => exact ⟨hf value orderly.1, orderly.2⟩
  | refused rest errors notLonger => exact orderly

theorem Orderly.andThen {reply : Reply α n}
    {next : (value : α) → (rest : List Token) → rest.length < n → Reply β (rest.length + 1)}
    (orderly : reply.Orderly good)
    (hnext : ∀ value rest shorter, good value → (next value rest shorter).Orderly good') :
    (reply.andThen next).Orderly good' := by
  cases reply with
  | accepted value rest errors shorter =>
      have hrest := hnext value rest shorter orderly.1
      exact (hrest.widen shorter).after orderly.2
  | refused rest errors notLonger => exact orderly

theorem orderly_expect {kind : TokenKind} {cause : SyntaxError.Cause} {tokens : List Token}
    (hcause : cause.isPanic) :
    (expect kind cause tokens).Orderly (·.kind = kind) := by
  cases tokens with
  | nil => exact orderly_blame hcause
  | cons token rest =>
      simp only [expect]
      split
      next hkind => exact orderly_done hkind (by simp)
      next => exact orderly_blame hcause

theorem Orderly.good_of_mem {reply : Reply α n} (orderly : reply.Orderly good) {value : α}
    (hvalue : value ∈ reply.value?) : good value := by
  cases reply with
  | accepted value rest errors shorter =>
      obtain rfl := Option.mem_some.mp hvalue
      exact orderly.1
  | refused => cases hvalue

theorem Orderly.countP_errors_le {reply : Reply α n} (orderly : reply.Orderly good) :
    reply.errors.countP (·.cause.isPanic) ≤ 1 := by
  have hnone : ∀ errors : List SyntaxError, (∀ error ∈ errors, ¬ error.cause.isPanic) →
      errors.countP (·.cause.isPanic) = 0 := by
    intro errors herrors
    simpa [List.countP_eq_zero] using herrors
  cases reply with
  | accepted value rest errors shorter =>
      have hcount := hnone errors orderly.2
      simp only [Reply.errors]
      omega
  | refused rest errors notLonger =>
      obtain ⟨earlier, cause, rfl, _, hearlier⟩ := orderly
      have hcount := hnone earlier hearlier
      simp only [Reply.errors, List.countP_append, List.countP_singleton]
      split <;> omega

end Reply

open Reply

/-! ## Expressions -/

theorem Tier.binds_mem {tier : Tier} {kind : TokenKind} (h : tier.binds kind = true) :
    kind ∈ binaryOperators := by
  have hsub : tier.operators ⊆ binaryOperators := by
    cases tier <;> decide
  exact hsub (Tier.binds_iff.mp h)

theorem Token.operand?_wellFormed {token : Token} {operand : Expr}
    (h : token.operand? = some operand) : operand.WellFormed := by
  unfold Token.operand? at h
  split at h <;> cases h <;> trivial

namespace Expr

theorem assignTo_wellFormed {target value : Expr} (equals : List Token)
    (htarget : target.WellFormed) (hvalue : value.WellFormed) :
    (target.assignTo value equals).1.WellFormed ∧
      ∀ error ∈ (target.assignTo value equals).2, ¬ error.cause.isPanic := by
  unfold assignTo
  split
  · exact ⟨⟨htarget, hvalue⟩, by simp⟩
  · exact ⟨htarget, by simp [SyntaxError.Cause.isPanic]⟩

mutual

theorem read_orderly (tokens : List Token) : (read tokens).Orderly WellFormed := by
  rw [read]
  apply (readChain_orderly .equality tokens).andThen
  intro target middle shorter htarget
  match middle, shorter with
  | [], _ => exact orderly_done htarget (by simp)
  | equals :: rest, shorter =>
      dsimp only
      split
      · refine Orderly.loosen (Orderly.loosen ?_)
        refine (read_orderly rest).andThen fun value rest' _ hvalue => ?_
        have hassign := assignTo_wellFormed (equals :: rest) htarget hvalue
        exact orderly_done hassign.1 hassign.2
      · exact orderly_done htarget (by simp)
termination_by (tokens.length, 2 * Tier.equality.rank + 2)
decreasing_by
  · exact Prod.Lex.right _ (Nat.lt_succ_self _)
  · exact Prod.Lex.left _ _ (Nat.lt_of_succ_lt shorter)

theorem readChain_orderly (tier : Tier) (tokens : List Token) :
    (readChain tier tokens).Orderly WellFormed := by
  rw [readChain]
  exact (readOperand_orderly tier tokens).andThen fun left rest _ hleft =>
    readLinks_orderly tier rest hleft
termination_by (tokens.length, 2 * tier.rank + 1)

theorem readLinks_orderly (tier : Tier) {left : Expr} (tokens : List Token)
    (hleft : left.WellFormed) : (readLinks tier left tokens).Orderly WellFormed := by
  match tokens with
  | [] =>
      rw [readLinks]
      exact orderly_done hleft (by simp)
  | operator :: rest =>
      rw [readLinks]
      split
      next hbinds =>
        refine Orderly.loosen (Orderly.loosen ?_)
        refine (readOperand_orderly tier rest).andThen fun right rest' _ hright => ?_
        exact readLinks_orderly tier rest' ⟨hleft, Tier.binds_mem hbinds, hright⟩
      next => exact orderly_done hleft (by simp)
termination_by (tokens.length, 0)

theorem readOperand_orderly (tier : Tier) (tokens : List Token) :
    (readOperand tier tokens).Orderly WellFormed := by
  rw [readOperand]
  split
  next tighter h => exact readChain_orderly tighter tokens
  next h => exact readUnary_orderly tokens
termination_by (tokens.length, 2 * tier.rank)
decreasing_by
  · exact Prod.Lex.right _ (by have := Tier.rank_tighter ‹tier.tighter? = some _›; omega)
  · exact Prod.Lex.right _ (by have := tier.rank_pos; omega)

theorem readUnary_orderly (tokens : List Token) : (readUnary tokens).Orderly WellFormed := by
  match tokens with
  | [] =>
      rw [readUnary]
      exact orderly_blame (by decide)
  | token :: rest =>
      rw [readUnary]
      split
      next hoperator =>
        refine Orderly.loosen ((readUnary_orderly rest).map fun right hright => ?_)
        exact ⟨isUnaryOperator_iff.mp hoperator, hright⟩
      next => exact readPrimary_orderly token rest
termination_by (tokens.length, 1)

theorem readPrimary_orderly (token : Token) (rest : List Token) :
    (readPrimary token rest).Orderly WellFormed := by
  rw [readPrimary]
  split
  next operand hoperand => exact orderly_done (Token.operand?_wellFormed hoperand) (by simp)
  next =>
    split
    · refine Orderly.loosen ?_
      refine (read_orderly rest).andThen fun inner rest' _ hinner => ?_
      have hclosing : (expect .rightParen .closingParen rest').Orderly (·.kind = .rightParen) :=
        orderly_expect (by decide)
      exact hclosing.loosen.map fun _ _ => hinner
    · exact orderly_blame (by decide)
termination_by (rest.length + 1, 0)

end

end Expr

/-! ## Statements -/

namespace Stmt

theorem endedBy_orderly {node : Stmt} {cause : SyntaxError.Cause} (tokens : List Token)
    (hnode : node.WellFormed) (hcause : cause.isPanic) :
    (node.endedBy cause tokens).Orderly WellFormed :=
  (orderly_expect hcause).loosen.map fun _ _ => hnode

theorem readVariable_orderly (tokens : List Token) :
    (readVariable tokens).Orderly WellFormed := by
  refine (orderly_expect (by decide)).andThen fun name middle shorter hname => ?_
  match middle, shorter with
  | [], _ => exact endedBy_orderly _ hname (by decide)
  | equals :: rest, _ =>
      dsimp only
      split
      · refine Orderly.loosen (Orderly.loosen ?_)
        refine (Expr.read_orderly rest).andThen fun initial rest' _ hinitial => ?_
        exact endedBy_orderly _ ⟨hname, hinitial⟩ (by decide)
      · exact endedBy_orderly _ hname (by decide)

theorem readPrint_orderly (tokens : List Token) : (readPrint tokens).Orderly WellFormed :=
  (Expr.read_orderly tokens).andThen fun _ _ _ hvalue => endedBy_orderly _ hvalue (by decide)

theorem readExpression_orderly (tokens : List Token) :
    (readExpression tokens).Orderly WellFormed :=
  (Expr.read_orderly tokens).andThen fun _ _ _ hvalue => endedBy_orderly _ hvalue (by decide)

theorem declared_wellFormed {n : Nat} {reply : Reply Stmt (n + 1)}
    (h : ∀ node ∈ reply.value?, node.WellFormed) :
    ∀ node ∈ reply.declared.1.node, node.WellFormed := by
  cases reply with
  | accepted value rest errors shorter => exact h
  | refused rest errors notLonger => simp [Reply.declared]

mutual

theorem readDeclaration_wellFormed (token : Token) (rest : List Token) :
    ∀ node ∈ (readDeclaration token rest).1.node, node.WellFormed := by
  rw [readDeclaration]
  apply declared_wellFormed
  split
  · exact fun node => (readVariable_orderly rest).loosen.good_of_mem
  · split
    · exact fun node => (readPrint_orderly rest).loosen.good_of_mem
    · split
      · intro node hnode
        simp only [Reply.loosen, value?_widen, value?_map, Option.mem_def,
          Option.map_eq_some_iff] at hnode
        obtain ⟨body, hbody, rfl⟩ := hnode
        exact readBlock_wellFormed rest body hbody
      · exact fun node => (readExpression_orderly (token :: rest)).good_of_mem
termination_by (rest.length, 1)

theorem readBlock_wellFormed (tokens : List Token) :
    ∀ nodes ∈ (readBlock tokens).value?, AllWellFormed nodes := by
  match tokens with
  | [] =>
      rw [readBlock]
      simp [blame, value?]
  | token :: rest =>
      rw [readBlock]
      split
      · simp [done, value?, AllWellFormed]
      · have shorter := (readDeclaration token rest).2
        intro nodes hnodes
        simp only [value?_widen, value?_after, value?_map, Option.mem_def,
          Option.map_eq_some_iff] at hnodes
        obtain ⟨others, hothers, rfl⟩ := hnodes
        have hfirst := readDeclaration_wellFormed token rest
        have hrest := readBlock_wellFormed _ others hothers
        rw [allWellFormed_iff] at hrest ⊢
        simp only [List.mem_append, Option.mem_toList]
        rintro node (hnode | hnode)
        · exact hfirst node hnode
        · exact hrest node hnode
termination_by (tokens.length, 0)

end

theorem readDeclarations_wellFormed (tokens : List Token) :
    AllWellFormed ((readDeclarations tokens).filterMap Declared.node) := by
  rw [allWellFormed_iff]
  fun_induction readDeclarations tokens with
  | case1 => simp
  | case2 token rest first shorter hfirst ih =>
      have hnode := readDeclaration_wellFormed token rest
      rw [hfirst] at hnode
      intro node hmem
      rw [List.filterMap_cons] at hmem
      cases hvalue : first.node with
      | none =>
          rw [hvalue] at hmem
          exact ih node hmem
      | some value =>
          rw [hvalue] at hmem
          rcases List.mem_cons.mp hmem with rfl | hmem
          · exact hnode node hvalue
          · exact ih node hmem

end Stmt

theorem TokenText.program_wellFormed (text : TokenText) :
    Stmt.AllWellFormed text.program.statements :=
  Stmt.readDeclarations_wellFormed text.body

end LoxLang

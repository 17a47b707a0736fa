import LoxLang.Proofs.Lockstep.Declarations

/-!
# Where rules find mistakes

A rule that accepts reports at most wrong targets, each at an equals sign that it has
read and that no other is reported at.  A rule that refuses has reported one mistake
more, the last, at the first token that it leaves.
-/

namespace LoxLang

/-- Wrong targets, each at an equals sign of its own, all in front of `rest`. -/
structure Targets (tokens rest : List Token) (errors : List SyntaxError) : Prop where
  suffix : rest <:+ tokens
  cause : ∀ error ∈ errors, error.cause = .assignmentTarget
  place : ∀ error ∈ errors, ∃ equals more, error.unread = equals :: more ∧
    equals.kind = .equal ∧ error.unread <:+ tokens ∧ rest <:+ more
  distinct : errors.Pairwise fun error error' => error.unread.length ≠ error'.unread.length

variable {tokens middle rest : List Token} {errors errors' : List SyntaxError}

theorem targets_nil (h : rest <:+ tokens) : Targets tokens rest [] :=
  ⟨h, by simp, by simp, .nil⟩

theorem Targets.length_lt (h : Targets tokens rest errors) {error : SyntaxError}
    (hmem : error ∈ errors) : rest.length < error.unread.length := by
  obtain ⟨equals, more, hunread, -, -, hmore⟩ := h.place error hmem
  rw [hunread, List.length_cons]
  have hlength := hmore.length_le
  omega

theorem Targets.of_suffix (h : Targets middle rest errors) (hmiddle : middle <:+ tokens) :
    Targets tokens rest errors where
  suffix := h.suffix.trans hmiddle
  cause := h.cause
  place := by
    intro error hmem
    obtain ⟨equals, more, hunread, hkind, hsuffix, hmore⟩ := h.place error hmem
    exact ⟨equals, more, hunread, hkind, hsuffix.trans hmiddle, hmore⟩
  distinct := h.distinct

theorem Targets.append (h : Targets tokens middle errors) (h' : Targets middle rest errors') :
    Targets tokens rest (errors ++ errors') where
  suffix := h'.suffix.trans h.suffix
  cause := by
    intro error hmem
    rcases List.mem_append.mp hmem with hmem | hmem
    · exact h.cause error hmem
    · exact h'.cause error hmem
  place := by
    intro error hmem
    rcases List.mem_append.mp hmem with hmem | hmem
    · obtain ⟨equals, more, hunread, hkind, hsuffix, hmore⟩ := h.place error hmem
      exact ⟨equals, more, hunread, hkind, hsuffix, h'.suffix.trans hmore⟩
    · exact (h'.of_suffix h.suffix).place error hmem
  distinct := by
    refine List.pairwise_append.mpr ⟨h.distinct, h'.distinct, ?_⟩
    intro error hmem error' hmem'
    have hlt := h.length_lt hmem
    obtain ⟨_, _, -, -, hsuffix, -⟩ := h'.place error' hmem'
    have hle := hsuffix.length_le
    omega

theorem Targets.assignTo (h : Targets middle rest errors) {equals : Token}
    (hkind : equals.kind = .equal) (target value : Expr) :
    Targets (equals :: middle) rest
      (errors ++ (target.assignTo value (equals :: middle)).2) := by
  have hmiddle : middle <:+ equals :: middle := List.suffix_cons _ _
  have hown : Targets (equals :: middle) rest
      (errors ++ [⟨.assignmentTarget, equals :: middle⟩]) := by
    refine ⟨h.suffix.trans hmiddle, ?_, ?_, List.pairwise_append.mpr ⟨h.distinct, by simp, ?_⟩⟩
    · simpa [or_imp, forall_and] using h.cause
    · intro error hmem
      rcases List.mem_append.mp hmem with hmem | hmem
      · exact (h.of_suffix hmiddle).place error hmem
      · obtain rfl := List.mem_singleton.mp hmem
        exact ⟨equals, middle, rfl, hkind, List.suffix_refl _, h.suffix⟩
    · intro error hmem own hown
      obtain rfl := List.mem_singleton.mp hown
      obtain ⟨_, _, -, -, hsuffix, -⟩ := h.place error hmem
      have hle := hsuffix.length_le
      simp only [List.length_cons]
      omega
  cases target with
  | reference name => simpa [Expr.assignTo] using h.of_suffix hmiddle
  | _ => exact hown

namespace Reply

variable {α β : Type} {m n : Nat}

/-- The mistakes of the answer stand where a rule finds them that starts at `tokens`. -/
def Placed (tokens : List Token) : Reply α n → Prop
  | accepted _ rest errors _ => Targets tokens rest errors
  | refused rest errors _ =>
      ∃ earlier cause, errors = earlier ++ [⟨cause, rest⟩] ∧ cause.isPanic ∧
        Targets tokens rest earlier

theorem Placed.suffix {reply : Reply α n} (placed : reply.Placed tokens) :
    reply.rest <:+ tokens := by
  cases reply with
  | accepted value rest errors shorter => exact Targets.suffix placed
  | refused rest errors notLonger =>
      obtain ⟨earlier, cause, -, -, htargets⟩ := placed
      exact htargets.suffix

theorem placed_done {value : α} (h : rest <:+ tokens) :
    (done value rest).Placed tokens :=
  targets_nil h

theorem placed_blame {cause : SyntaxError.Cause} (hcause : cause.isPanic) (h : rest <:+ tokens) :
    (blame cause rest : Reply α rest.length).Placed tokens :=
  ⟨[], cause, rfl, hcause, targets_nil h⟩

theorem Placed.widen {reply : Reply α m} (h : m ≤ n) (placed : reply.Placed tokens) :
    (reply.widen h).Placed tokens := by
  cases reply <;> exact placed

theorem Placed.loosen {reply : Reply α n} (placed : reply.Placed tokens) :
    reply.loosen.Placed tokens :=
  placed.widen _

theorem Placed.after {reply : Reply α n} (placed : reply.Placed middle)
    (hearlier : Targets tokens middle errors) : (reply.after errors).Placed tokens := by
  cases reply with
  | accepted value rest errors' shorter => exact hearlier.append placed
  | refused rest errors' notLonger =>
      obtain ⟨earlier, cause, rfl, hcause, htargets⟩ := placed
      exact ⟨errors ++ earlier, cause, by simp, hcause, hearlier.append htargets⟩

theorem Placed.of_suffix {reply : Reply α n} (placed : reply.Placed middle)
    (h : middle <:+ tokens) : reply.Placed tokens := by
  have hafter := placed.after (targets_nil h)
  cases reply <;> exact hafter

theorem Placed.map {reply : Reply α n} (f : α → β) (placed : reply.Placed tokens) :
    (reply.map f).Placed tokens := by
  cases reply <;> exact placed

theorem Placed.andThen {reply : Reply α n}
    {next : (value : α) → (rest : List Token) → rest.length < n → Reply β (rest.length + 1)}
    (placed : reply.Placed tokens)
    (hnext : ∀ value rest shorter, (next value rest shorter).Placed rest) :
    (reply.andThen next).Placed tokens := by
  cases reply with
  | accepted value rest errors shorter =>
      exact ((hnext value rest shorter).widen shorter).after placed
  | refused rest errors notLonger => exact placed

theorem placed_expect {kind : TokenKind} {cause : SyntaxError.Cause} (hcause : cause.isPanic)
    (tokens : List Token) : (expect kind cause tokens).Placed tokens := by
  cases tokens with
  | nil => exact placed_blame hcause (List.suffix_refl _)
  | cons token rest =>
      simp only [expect]
      split
      · exact placed_done (List.suffix_cons _ _)
      · exact placed_blame hcause (List.suffix_refl _)

end Reply

open Reply

/-! ## Expressions -/

namespace Expr

mutual

theorem read_placed (tokens : List Token) : (read tokens).Placed tokens := by
  rw [read]
  apply (readChain_placed .equality tokens).andThen
  intro target middle shorter
  match middle, shorter with
  | [], _ => exact placed_done (List.suffix_refl _)
  | equals :: rest, shorter =>
      dsimp only
      split
      next hkind =>
        refine Placed.loosen (Placed.loosen ?_)
        have hvalue := read_placed rest
        cases hreply : read rest with
        | accepted value rest' errors _ =>
            rw [hreply] at hvalue
            exact Targets.assignTo hvalue hkind target value
        | refused rest' errors _ =>
            rw [hreply] at hvalue
            exact hvalue.of_suffix (List.suffix_cons _ _)
      next => exact placed_done (List.suffix_refl _)
termination_by (tokens.length, 2 * Tier.equality.rank + 2)
decreasing_by
  · exact Prod.Lex.right _ (Nat.lt_succ_self _)
  · exact Prod.Lex.left _ _ (Nat.lt_of_succ_lt shorter)

theorem readChain_placed (tier : Tier) (tokens : List Token) :
    (readChain tier tokens).Placed tokens := by
  rw [readChain]
  exact (readOperand_placed tier tokens).andThen fun left rest _ =>
    readLinks_placed tier left rest
termination_by (tokens.length, 2 * tier.rank + 1)

theorem readLinks_placed (tier : Tier) (left : Expr) (tokens : List Token) :
    (readLinks tier left tokens).Placed tokens := by
  match tokens with
  | [] =>
      rw [readLinks]
      exact placed_done (List.suffix_refl _)
  | operator :: rest =>
      rw [readLinks]
      split
      · have hright := (readOperand_placed tier rest).andThen fun right rest' _ =>
          readLinks_placed tier (.binary left operator right) rest'
        exact (hright.of_suffix (List.suffix_cons _ _)).loosen.loosen
      · exact placed_done (List.suffix_refl _)
termination_by (tokens.length, 0)

theorem readOperand_placed (tier : Tier) (tokens : List Token) :
    (readOperand tier tokens).Placed tokens := by
  rw [readOperand]
  split
  next tighter h => exact readChain_placed tighter tokens
  next h => exact readUnary_placed tokens
termination_by (tokens.length, 2 * tier.rank)
decreasing_by
  · exact Prod.Lex.right _ (by have := Tier.rank_tighter ‹tier.tighter? = some _›; omega)
  · exact Prod.Lex.right _ (by have := tier.rank_pos; omega)

theorem readUnary_placed (tokens : List Token) : (readUnary tokens).Placed tokens := by
  match tokens with
  | [] =>
      rw [readUnary]
      exact placed_blame rfl (List.suffix_refl _)
  | token :: rest =>
      rw [readUnary]
      split
      · exact (((readUnary_placed rest).map _).of_suffix (List.suffix_cons _ _)).loosen
      · exact readPrimary_placed token rest
termination_by (tokens.length, 1)

theorem readPrimary_placed (token : Token) (rest : List Token) :
    (readPrimary token rest).Placed (token :: rest) := by
  rw [readPrimary]
  split
  · exact placed_done (List.suffix_cons _ _)
  · split
    · refine Placed.loosen (Placed.of_suffix ?_ (List.suffix_cons _ _))
      exact (read_placed rest).andThen fun _ rest' _ => (placed_expect rfl rest').loosen.map _
    · exact placed_blame rfl (List.suffix_refl _)
termination_by (rest.length + 1, 0)

end

end Expr

/-! ## Declarations that are no blocks -/

namespace Stmt

theorem endedBy_placed (node : Stmt) {cause : SyntaxError.Cause} (hcause : cause.isPanic)
    (tokens : List Token) : (node.endedBy cause tokens).Placed tokens :=
  ((placed_expect hcause tokens).loosen).map _

theorem readVariable_placed (tokens : List Token) : (readVariable tokens).Placed tokens := by
  apply (placed_expect rfl tokens).andThen
  intro name middle shorter
  cases middle with
  | nil => exact endedBy_placed _ rfl _
  | cons equals rest =>
      dsimp only
      split
      · refine Placed.loosen (Placed.loosen (Placed.of_suffix ?_ (List.suffix_cons _ _)))
        exact (Expr.read_placed rest).andThen fun _ _ _ => endedBy_placed _ rfl _
      · exact endedBy_placed _ rfl _

theorem readPrint_placed (tokens : List Token) : (readPrint tokens).Placed tokens :=
  (Expr.read_placed tokens).andThen fun _ _ _ => endedBy_placed _ rfl _

theorem readExpression_placed (tokens : List Token) : (readExpression tokens).Placed tokens :=
  (Expr.read_placed tokens).andThen fun _ _ _ => endedBy_placed _ rfl _

theorem readSimple_placed (token : Token) (rest : List Token) :
    (readSimple token rest).Placed (token :: rest) := by
  unfold readSimple
  split
  · exact ((readVariable_placed rest).of_suffix (List.suffix_cons _ _)).loosen
  · split
    · exact ((readPrint_placed rest).of_suffix (List.suffix_cons _ _)).loosen
    · exact readExpression_placed (token :: rest)

end Stmt

end LoxLang

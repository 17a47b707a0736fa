import LoxLang.Proofs.Cursor.Rules
import LoxLang.Proofs.Syntax.Expressions
import Mathlib.Data.List.TakeWhile

/-!
# Expressions at a cursor

Each rule at a cursor does what the rule does that is given the unread tokens before
the first end token.  A list without an end token may run out of tokens instead.  The
depth that suffices is given by the tokens: no more than fourteen calls are made
inside each other before the next token is read.
-/

namespace LoxLang.Cursor

open Reply

variable {α β : Type} {tokens rest more : List Token} {token : Token} {reports : List Diagnostic}

def body (tokens : List Token) : List Token :=
  tokens.takeWhile (·.kind ≠ .eof)

/-- The first end token, or any such token if there is none. -/
def ending (tokens : List Token) : Token :=
  (tokens.dropWhile (·.kind ≠ .eof)).headD (.ending 0)

def before (tokens rest : List Token) (reports : List Diagnostic) : Cursor :=
  ⟨tokens, (body tokens).length - rest.length, reports⟩

/-- The rule ends with a value, or runs out of tokens in a list without an end token. -/
def Yields (tokens : List Token) (rule : Rule α) (cursor : Cursor) (value : α) (after : Cursor) :
    Prop :=
  rule cursor = some (.ok (value, after)) ∨
    (∀ token ∈ tokens, token.kind ≠ .eof) ∧ rule cursor = some (.error .outOfRange)

theorem bind_of_ok {rule : Rule α} {next : α → Rule β} {cursor after : Cursor} {value : α}
    (h : rule cursor = some (.ok (value, after))) : (rule >>= next) cursor = next value after := by
  simp only [bind, StateT.bind, ExceptT.bind, ExceptT.mk, h, Option.bind_some]
  rfl

theorem bind_of_error {rule : Rule α} {next : α → Rule β} {cursor : Cursor} {fault : Fault}
    (h : rule cursor = some (.error fault)) :
    (rule >>= next) cursor = some (.error fault) := by
  simp only [bind, StateT.bind, ExceptT.bind, ExceptT.mk, h, Option.bind_some]
  rfl

theorem yields_pure (value : α) (cursor : Cursor) :
    Yields tokens (pure value) cursor value cursor :=
  .inl rfl

theorem Yields.bind {rule : Rule α} {next : α → Rule β} {cursor after last : Cursor} {value : α}
    {value' : β} (h : Yields tokens rule cursor value after)
    (h' : Yields tokens (next value) after value' last) :
    Yields tokens (rule >>= next) cursor value' last := by
  rcases h with hvalue | ⟨hnone, hfault⟩
  · rw [Yields, bind_of_ok hvalue]
    exact h'
  · exact .inr ⟨hnone, bind_of_error hfault⟩

/-! ## Tokens -/

theorem ending_kind (tokens : List Token) : (ending tokens).kind = .eof := by
  have hhead := List.head?_dropWhile_not (fun token : Token => decide (token.kind ≠ .eof)) tokens
  unfold ending
  cases hbehind : tokens.dropWhile (·.kind ≠ .eof) with
  | nil => rfl
  | cons token behind =>
      rw [hbehind] at hhead
      simpa using hhead

theorem getElem?_before (h : rest <:+ body tokens) :
    tokens[(body tokens).length - rest.length]? =
      (rest ++ tokens.dropWhile (·.kind ≠ .eof)).head? := by
  obtain ⟨front, hfront⟩ := h
  have htokens : tokens = front ++ (rest ++ tokens.dropWhile (·.kind ≠ .eof)) := by
    rw [← List.append_assoc, hfront, body, List.takeWhile_append_dropWhile]
  have hposition : (body tokens).length - rest.length = front.length := by
    simp [← hfront]
  calc tokens[(body tokens).length - rest.length]?
    _ = (front ++ (rest ++ tokens.dropWhile (·.kind ≠ .eof)))[front.length]? := by
        rw [hposition, ← htokens]
    _ = (rest ++ tokens.dropWhile (·.kind ≠ .eof)).head? := by
        rw [List.getElem?_append_right (Nat.le_refl _), Nat.sub_self, List.head?_eq_getElem?]

theorem found_yields {token? : Option Token} {cursor : Cursor} (htoken : token? = some token) :
    Yields tokens (found token?) cursor token cursor := by
  rw [htoken]
  exact yields_pure token cursor

theorem peek_yields (h : rest <:+ body tokens) :
    Yields tokens peek (before tokens rest reports) (rest.headD (ending tokens))
      (before tokens rest reports) := by
  have hnext := getElem?_before h
  unfold peek
  refine Yields.bind (.inl rfl) ?_
  show Yields tokens (found tokens[(body tokens).length - rest.length]?) _ _ _
  cases rest with
  | cons token more => exact found_yields hnext
  | nil =>
      rw [List.nil_append] at hnext
      unfold ending
      cases hbehind : tokens.dropWhile (·.kind ≠ .eof) with
      | cons token behind =>
          rw [hbehind] at hnext
          exact found_yields hnext
      | nil =>
          rw [hbehind] at hnext
          rw [hnext]
          refine .inr ⟨?_, rfl⟩
          simpa using hbehind

theorem isAtEnd_yields (h : rest <:+ body tokens) :
    Yields tokens isAtEnd (before tokens rest reports) rest.isEmpty
      (before tokens rest reports) := by
  have hend : decide ((rest.headD (ending tokens)).kind = .eof) = rest.isEmpty := by
    cases rest with
    | nil => simp [ending_kind]
    | cons token more =>
        have hmem := h.subset (List.mem_cons_self (a := token) (l := more))
        simpa using List.mem_takeWhile_imp hmem
  rw [← hend]
  exact (peek_yields h).bind (yields_pure _ _)

theorem check_yields (kind : TokenKind) (h : rest <:+ body tokens) :
    Yields tokens (check kind) (before tokens rest reports) (rest.head?.any (·.kind = kind))
      (before tokens rest reports) := by
  refine (isAtEnd_yields h).bind ?_
  cases rest with
  | nil => exact yields_pure _ _
  | cons token more => exact (peek_yields h).bind (yields_pure _ _)

theorem previous_yields (h : token :: more <:+ body tokens) :
    Yields tokens previous (before tokens more reports) token (before tokens more reports) := by
  have hnext := getElem?_before h
  have hlength := h.length_le
  have hposition : (body tokens).length - more.length =
      (body tokens).length - (token :: more).length + 1 := by
    rw [List.length_cons] at hlength ⊢
    omega
  unfold previous
  refine Yields.bind (.inl rfl) ?_
  simp only [before, hposition]
  exact found_yields hnext

theorem advance_yields (h : token :: more <:+ body tokens) :
    Yields tokens advance (before tokens (token :: more) reports) token
      (before tokens more reports) := by
  have hlength := h.length_le
  have hposition : (body tokens).length - (token :: more).length + 1 =
      (body tokens).length - more.length := by
    rw [List.length_cons] at hlength ⊢
    omega
  have hmoved : Yields tokens (modify fun cursor =>
      { cursor with position := cursor.position + 1 }) (before tokens (token :: more) reports) ()
      (before tokens more reports) := by
    rw [before, before, ← hposition]
    exact .inl rfl
  exact (isAtEnd_yields h).bind (hmoved.bind (previous_yields h))

theorem accept_end (kinds : List TokenKind) :
    Yields tokens (accept kinds) (before tokens [] reports) false (before tokens [] reports) := by
  induction kinds with
  | nil => exact yields_pure _ _
  | cons kind kinds ih => exact (check_yields kind (List.nil_suffix)).bind ih

theorem accept_miss (h : token :: more <:+ body tokens) {kinds : List TokenKind}
    (hkind : token.kind ∉ kinds) :
    Yields tokens (accept kinds) (before tokens (token :: more) reports) false
      (before tokens (token :: more) reports) := by
  induction kinds with
  | nil => exact yields_pure _ _
  | cons kind kinds ih =>
      simp only [List.mem_cons, not_or] at hkind
      refine (check_yields kind h).bind ?_
      simp only [List.head?_cons, Option.any_some, hkind.1, decide_false]
      exact ih hkind.2

theorem accept_hit (h : token :: more <:+ body tokens) {kinds : List TokenKind}
    (hkind : token.kind ∈ kinds) :
    Yields tokens (accept kinds) (before tokens (token :: more) reports) true
      (before tokens more reports) := by
  induction kinds with
  | nil => cases hkind
  | cons kind kinds ih =>
      refine (check_yields kind h).bind ?_
      by_cases hfirst : token.kind = kind
      · simp only [List.head?_cons, Option.any_some, hfirst, decide_true]
        exact (advance_yields h).bind (yields_pure _ _)
      · simp only [List.head?_cons, Option.any_some, hfirst, decide_false]
        exact ih ((List.mem_cons.mp hkind).resolve_left hfirst)

/-! ## Rules that may give up -/

/-- At a cursor the rule does what the reply says about the tokens `rest`. -/
structure Follows (tokens : List Token) (rule : Rule (Option α)) (rest : List Token) {n : Nat}
    (reply : Reply α n) : Prop where
  suffix : reply.rest <:+ body tokens
  yields : ∀ reports, Yields tokens rule (before tokens rest reports) reply.value?
    (before tokens reply.rest
      (reports ++ reply.errors.map (SyntaxError.diagnostic (ending tokens))))

section

variable {m n : Nat} {rule : Rule (Option α)} {reply : Reply α n}

theorem follows_done {value : α} (h : rest <:+ body tokens) :
    Follows tokens (pure (some value)) rest (done value rest) := by
  refine ⟨h, fun reports => ?_⟩
  simp only [done, value?, Reply.rest, Reply.errors, List.map_nil, List.append_nil]
  exact yields_pure _ _

theorem Follows.widen {reply : Reply α m} (h : m ≤ n) (follows : Follows tokens rule rest reply) :
    Follows tokens rule rest (reply.widen h) := by
  obtain ⟨hsuffix, hyields⟩ := follows
  exact ⟨by simpa using hsuffix, by simpa using hyields⟩

theorem Follows.loosen (follows : Follows tokens rule rest reply) :
    Follows tokens rule rest reply.loosen :=
  follows.widen _

theorem Follows.andThen {next : Option α → Rule (Option β)}
    {next' : (value : α) → (rest : List Token) → rest.length < n → Reply β (rest.length + 1)}
    (follows : Follows tokens rule rest reply) (hnone : next none = pure none)
    (hnext : ∀ value more shorter, more <:+ body tokens →
      Follows tokens (next (some value)) more (next' value more shorter)) :
    Follows tokens (rule >>= next) rest (reply.andThen next') := by
  cases reply with
  | accepted value more errors shorter =>
      have hmore := hnext value more shorter follows.suffix
      simp only [Reply.andThen]
      refine ⟨by simpa using hmore.suffix, fun reports => (follows.yields reports).bind ?_⟩
      simp only [value?_after, value?_widen, rest_after, rest_widen, errors_after, errors_widen,
        List.map_append, ← List.append_assoc]
      exact hmore.yields _
  | refused more errors notLonger =>
      refine ⟨follows.suffix, fun reports => (follows.yields reports).bind ?_⟩
      show Yields tokens (next none) _ _ _
      rw [hnone]
      exact yields_pure _ _

theorem Follows.map {next : Option α → Rule (Option β)} (f : α → β)
    (follows : Follows tokens rule rest reply) (hnone : next none = pure none)
    (hnext : ∀ value, next (some value) = pure (some (f value))) :
    Follows tokens (rule >>= next) rest (reply.map f) := by
  cases reply with
  | accepted value more errors shorter =>
      refine ⟨follows.suffix, fun reports => (follows.yields reports).bind ?_⟩
      show Yields tokens (next (some value)) _ _ _
      rw [hnext]
      exact yields_pure _ _
  | refused more errors notLonger =>
      refine ⟨follows.suffix, fun reports => (follows.yields reports).bind ?_⟩
      show Yields tokens (next none) _ _ _
      rw [hnone]
      exact yields_pure _ _

theorem Follows.after {γ : Type} {step : Rule γ} {next : γ → Rule (Option α)} {value : γ}
    (hstep : ∀ reports, Yields tokens step (before tokens rest reports) value
      (before tokens more reports))
    (follows : Follows tokens (next value) more reply) :
    Follows tokens (step >>= next) rest reply :=
  ⟨follows.suffix, fun reports => (hstep reports).bind (follows.yields reports)⟩

end

theorem follows_blame (cause : SyntaxError.Cause) (h : rest <:+ body tokens) :
    Follows tokens (do report (← peek) cause; return none) rest
      (blame cause rest : Reply α rest.length) := by
  refine ⟨h, fun reports => ?_⟩
  refine (peek_yields h).bind (Yields.bind (.inl rfl) ?_)
  exact yields_pure _ _

theorem consume_follows (kind : TokenKind) (cause : SyntaxError.Cause) (h : rest <:+ body tokens) :
    Follows tokens (consume kind cause) rest (expect kind cause rest) := by
  unfold consume
  refine .after (fun reports => check_yields kind h) ?_
  cases rest with
  | nil => exact follows_blame cause h
  | cons token more =>
      simp only [List.head?_cons, Option.any_some, expect]
      by_cases hkind : token.kind = kind
      · simp only [hkind, decide_true, if_true]
        exact .after (fun reports => advance_yields h)
          (follows_done ((List.suffix_cons _ _).trans h))
      · simp only [hkind, decide_false, if_false]
        exact follows_blame cause h

theorem Follows.accept {n : Nat} {reply : Reply α n} {kinds : List TokenKind}
    {next : Bool → Rule (Option α)} (h : token :: more <:+ body tokens)
    (hhit : token.kind ∈ kinds → Follows tokens (next true) more reply)
    (hmiss : token.kind ∉ kinds → Follows tokens (next false) (token :: more) reply) :
    Follows tokens (accept kinds >>= next) (token :: more) reply := by
  by_cases hkind : token.kind ∈ kinds
  · exact .after (fun reports => accept_hit h hkind) (hhit hkind)
  · exact .after (fun reports => accept_miss h hkind) (hmiss hkind)

theorem primary_at_end (depth : Nat) (h : [] <:+ body tokens) :
    Follows tokens (primary (depth + 1)) [] (blame .expression []) := by
  rw [primary]
  iterate 6 refine .after (fun reports => accept_end _) ?_
  exact follows_blame .expression h

theorem assignTo_follows (target value : Expr) (equals : Token) (behind : List Token)
    (h : rest <:+ body tokens) :
    Follows tokens (match target with
      | .reference name => pure (some (.assign name value))
      | _ => do
          report equals .assignmentTarget
          pure (some target))
      rest (done (target.assignTo value (equals :: behind)).1 rest
        (target.assignTo value (equals :: behind)).2) := by
  cases target with
  | reference name => exact follows_done h
  | _ =>
      refine ⟨h, fun reports => Yields.bind (.inl rfl) ?_⟩
      exact yields_pure _ _

theorem rank_le (tier : Tier) : tier.rank ≤ 4 := by
  cases tier <;> decide

mutual

theorem expression_follows (depth : Nat) (rest : List Token) (h : rest <:+ body tokens)
    (hdepth : 14 * rest.length + 11 ≤ depth) :
    Follows tokens (expression depth) rest (Expr.read rest) := by
  match depth, hdepth with
  | depth + 1, hdepth =>
      rw [expression, Expr.read]
      have hrank : Tier.equality.rank = 4 := rfl
      -- The operand has been read with at least one token, which pays for the calls behind it.
      refine (chain_follows depth .equality rest h (by omega)).andThen rfl ?_
      intro target middle shorter hmiddle
      match middle, shorter with
      | [], _ => exact .after (fun reports => accept_end _) (follows_done hmiddle)
      | equals :: more, shorter =>
          have hmore := (List.suffix_cons equals more).trans hmiddle
          rw [List.length_cons] at shorter
          dsimp only
          by_cases hkind : equals.kind = .equal
          · rw [if_pos hkind]
            refine .after (fun reports => accept_hit hmiddle (by simp [hkind])) ?_
            refine .after (fun reports => previous_yields hmiddle)
              (Follows.loosen (Follows.loosen ?_))
            refine (expression_follows depth more hmore (by omega)).andThen rfl ?_
            exact fun value rest' _ hrest' => assignTo_follows target value equals more hrest'
          · rw [if_neg hkind]
            exact .after (fun reports => accept_miss hmiddle (by simpa using hkind))
              (follows_done hmiddle)
termination_by depth

theorem chain_follows (depth : Nat) (tier : Tier) (rest : List Token) (h : rest <:+ body tokens)
    (hdepth : 14 * rest.length + 2 * tier.rank + 2 ≤ depth) :
    Follows tokens (chain depth tier) rest (Expr.readChain tier rest) := by
  match depth, hdepth with
  | depth + 1, hdepth =>
      rw [chain, Expr.readChain]
      refine (operand_follows depth tier rest h (by omega)).andThen rfl ?_
      intro left more shorter hmore
      exact links_follows depth tier left more hmore (by omega)
termination_by depth

theorem links_follows (depth : Nat) (tier : Tier) (left : Expr) (rest : List Token)
    (h : rest <:+ body tokens) (hdepth : 14 * rest.length + 1 ≤ depth) :
    Follows tokens (links depth tier left) rest (Expr.readLinks tier left rest) := by
  match depth, rest, hdepth with
  | depth + 1, [], _ =>
      rw [links, Expr.readLinks]
      exact .after (fun reports => accept_end _) (follows_done h)
  | depth + 1, operator :: more, hdepth =>
      have hmore := (List.suffix_cons operator more).trans h
      have hrank := rank_le tier
      rw [List.length_cons] at hdepth
      rw [links, Expr.readLinks]
      by_cases hbinds : tier.binds operator.kind
      · rw [if_pos hbinds]
        refine .after (fun reports => accept_hit h (Tier.binds_iff.mp hbinds)) ?_
        refine .after (fun reports => previous_yields h) (Follows.loosen (Follows.loosen ?_))
        refine (operand_follows depth tier more hmore (by omega)).andThen rfl ?_
        intro right rest' shorter hrest'
        exact links_follows depth tier (.binary left operator right) rest' hrest' (by omega)
      · rw [if_neg hbinds]
        exact .after (fun reports => accept_miss h (mt Tier.binds_iff.mpr hbinds))
          (follows_done h)
termination_by depth

theorem operand_follows (depth : Nat) (tier : Tier) (rest : List Token) (h : rest <:+ body tokens)
    (hdepth : 14 * rest.length + 2 * tier.rank + 1 ≤ depth) :
    Follows tokens (operand depth tier) rest (Expr.readOperand tier rest) := by
  match depth, hdepth with
  | depth + 1, hdepth =>
      rw [operand, Expr.readOperand]
      split
      next tighter htier =>
        have hrank := Tier.rank_tighter htier
        rw [htier]
        exact chain_follows depth tighter rest h (by omega)
      next htier =>
        have hrank := tier.rank_pos
        rw [htier]
        exact unary_follows depth rest h (by omega)
termination_by depth

theorem unary_follows (depth : Nat) (rest : List Token) (h : rest <:+ body tokens)
    (hdepth : 14 * rest.length + 2 ≤ depth) :
    Follows tokens (unary depth) rest (Expr.readUnary rest) := by
  match depth, rest, hdepth with
  | depth + 2, [], _ =>
      rw [unary, Expr.readUnary]
      exact .after (fun reports => accept_end _) (primary_at_end depth h)
  | depth + 1, token :: more, hdepth =>
      have hmore := (List.suffix_cons token more).trans h
      rw [List.length_cons] at hdepth
      rw [unary, Expr.readUnary]
      by_cases hoperator : isUnaryOperator token.kind
      · rw [if_pos hoperator]
        refine .after (fun reports => accept_hit h (Expr.isUnaryOperator_iff.mp hoperator)) ?_
        refine .after (fun reports => previous_yields h) (Follows.loosen ?_)
        exact (unary_follows depth more hmore (by omega)).map _ rfl fun _ => rfl
      · rw [if_neg hoperator]
        refine .after (fun reports => accept_miss h (mt Expr.isUnaryOperator_iff.mpr hoperator)) ?_
        exact primary_follows depth token more h (by omega)
termination_by depth

theorem primary_follows (depth : Nat) (token : Token) (more : List Token)
    (h : token :: more <:+ body tokens) (hdepth : 14 * more.length + 15 ≤ depth) :
    Follows tokens (primary depth) (token :: more) (Expr.readPrimary token more) := by
  match depth, hdepth with
  | depth + 1, hdepth =>
      have hmore := (List.suffix_cons token more).trans h
      have hdone : ∀ operand, token.operand? = some operand →
          Follows tokens (pure (some operand)) more (Expr.readPrimary token more) := by
        intro operand hoperand
        rw [Expr.readPrimary, hoperand]
        exact follows_done hmore
      rw [primary]
      refine .accept h (fun hkind => hdone _ ?_) fun hfalse => ?_
      · simp [Token.operand?, List.mem_singleton.mp hkind]
      refine .accept h (fun hkind => hdone _ ?_) fun htrue => ?_
      · simp [Token.operand?, List.mem_singleton.mp hkind]
      refine .accept h (fun hkind => hdone _ ?_) fun hnil => ?_
      · simp [Token.operand?, List.mem_singleton.mp hkind]
      refine .accept h (fun hkind => .after (fun reports => previous_yields h) (hdone _ ?_))
        fun hliteral => ?_
      · rcases List.mem_cons.mp hkind with hkind | hkind
        · simp [Token.operand?, hkind]
        · simp [Token.operand?, List.mem_singleton.mp hkind]
      refine .accept h (fun hkind => .after (fun reports => previous_yields h) (hdone _ ?_))
        fun hname => ?_
      · simp [Token.operand?, List.mem_singleton.mp hkind]
      have hnone : token.operand? = none := by
        unfold Token.operand?
        split <;> simp_all
      rw [Expr.readPrimary, hnone]
      refine .accept h (fun hkind => ?_) fun hkind => ?_
      · simp only [List.mem_singleton.mp hkind, if_true]
        refine Follows.loosen ((expression_follows depth more hmore (by omega)).andThen rfl ?_)
        intro inner rest' _ hrest'
        exact (consume_follows .rightParen .closingParen hrest').loosen.map _ rfl fun _ => rfl
      · simp only [mt List.mem_singleton.mpr hkind, if_false]
        exact follows_blame .expression h
termination_by depth

end

end LoxLang.Cursor

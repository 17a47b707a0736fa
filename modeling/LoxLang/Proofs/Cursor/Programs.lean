import LoxLang.Proofs.Cursor.Expressions
import LoxLang.Proofs.Recovery.Blame

/-!
# Programs at a cursor

Every declaration moves the cursor on and never behind the first end token, so reading a
program ends there.  Without an end token it always runs out of tokens.
-/

namespace LoxLang.Cursor

open Reply

variable {tokens rest more : List Token} {token : Token} {reports : List Diagnostic} {depth : Nat}

/-! ## Declarations that are no blocks -/

theorem endedBy_follows (node : Stmt) (cause : SyntaxError.Cause) (h : rest <:+ body tokens) :
    Follows tokens (do
      let some _ ← consume .semicolon cause | return none
      return some node) rest (node.endedBy cause rest) :=
  (consume_follows .semicolon cause h).loosen.map _ rfl fun _ => rfl

theorem printStatement_follows (h : rest <:+ body tokens)
    (hdepth : 14 * rest.length + 11 ≤ depth) :
    Follows tokens (printStatement depth) rest (Stmt.readPrint rest) :=
  (expression_follows depth rest h hdepth).andThen rfl fun value _ _ hmore =>
    endedBy_follows (.print value) .afterValue hmore

theorem expressionStatement_follows (h : rest <:+ body tokens)
    (hdepth : 14 * rest.length + 11 ≤ depth) :
    Follows tokens (expressionStatement depth) rest (Stmt.readExpression rest) :=
  (expression_follows depth rest h hdepth).andThen rfl fun value _ _ hmore =>
    endedBy_follows (.expression value) .afterExpression hmore

theorem variableDeclaration_follows (h : rest <:+ body tokens)
    (hdepth : 14 * rest.length + 11 ≤ depth) :
    Follows tokens (variableDeclaration depth) rest (Stmt.readVariable rest) := by
  refine (consume_follows .identifier .variableName h).andThen rfl ?_
  intro name middle shorter hmiddle
  cases middle with
  | nil =>
      exact .after (fun reports => accept_end _) (endedBy_follows _ .afterDeclaration hmiddle)
  | cons equals more =>
      have hmore := (List.suffix_cons equals more).trans hmiddle
      rw [List.length_cons] at shorter
      refine .accept hmiddle (fun hkind => ?_) fun hkind => ?_
      · simp only [List.mem_singleton.mp hkind, if_true]
        refine Follows.loosen (Follows.loosen ?_)
        refine (expression_follows depth more hmore (by omega)).andThen rfl ?_
        intro initial rest' _ hrest'
        exact endedBy_follows _ .afterDeclaration hrest'
      · simp only [mt List.mem_singleton.mpr hkind, if_false]
        exact endedBy_follows _ .afterDeclaration hmiddle

/-! ## Recovery -/

theorem skip_yields (h : token :: more <:+ body tokens) (hdepth : more.length < depth) :
    Yields tokens (skip depth) (before tokens more reports) ()
      (before tokens (skipStatement token more) reports) := by
  induction more generalizing token depth with
  | nil =>
      obtain ⟨depth, rfl⟩ := Nat.exists_eq_add_of_lt hdepth
      rw [skip]
      exact (isAtEnd_yields List.nil_suffix).bind (yields_pure _ _)
  | cons next others ih =>
      obtain ⟨depth, rfl⟩ := Nat.exists_eq_add_of_lt hdepth
      have hnext := (List.suffix_cons token (next :: others)).trans h
      rw [skip, skipStatement]
      refine (isAtEnd_yields hnext).bind ((previous_yields h).bind ?_)
      by_cases hsemicolon : token.kind = .semicolon
      · simp only [hsemicolon, decide_true, Bool.true_or, if_true]
        exact yields_pure _ _
      · simp only [hsemicolon, decide_false, Bool.false_or, if_false]
        refine (peek_yields hnext).bind ?_
        by_cases hstart : startsStatement next.kind
        · simp only [List.headD_cons, hstart, if_true]
          exact yields_pure _ _
        · simp only [List.headD_cons, hstart, Bool.false_eq_true, if_false]
          exact (advance_yields hnext).bind (ih hnext (by simp only [List.length_cons]; omega))

theorem advance_at_end (tokens : List Token) (reports : List Diagnostic) :
    ∃ token, Yields tokens advance (before tokens [] reports) token
      (before tokens [] reports) := by
  obtain ⟨token, hprevious⟩ : ∃ token,
      Yields tokens previous (before tokens [] reports) token (before tokens [] reports) := by
    unfold previous before
    cases hlength : (body tokens).length with
    | zero =>
        -- Nothing stands in front of the end, so the list is looked at from its other side.
        cases hlast : tokens.getLast? with
        | none =>
            obtain rfl := List.getLast?_eq_none_iff.mp hlast
            exact ⟨.ending 0, .inr ⟨by simp, rfl⟩⟩
        | some token => exact ⟨token, Yields.bind (.inl rfl) (found_yields hlast)⟩
    | succ last =>
        have hlast : last < tokens.length := by
          have hle := (List.takeWhile_prefix (l := tokens) (·.kind ≠ .eof)).length_le
          rw [body] at hlength
          omega
        exact ⟨tokens[last], Yields.bind (.inl rfl)
          (found_yields (List.getElem?_eq_getElem hlast))⟩
  exact ⟨token, (isAtEnd_yields List.nil_suffix).bind hprevious⟩

theorem synchronize_yields (h : rest <:+ body tokens) (hdepth : rest.length < depth) :
    Yields tokens (synchronize depth) (before tokens rest reports) ()
      (before tokens (recover rest) reports) := by
  cases rest with
  | nil =>
      obtain ⟨depth, rfl⟩ := Nat.exists_eq_add_of_lt hdepth
      obtain ⟨token, htoken⟩ := advance_at_end tokens reports
      refine htoken.bind ?_
      rw [skip]
      exact (isAtEnd_yields h).bind (yields_pure _ _)
  | cons token more =>
      exact (advance_yields h).bind (skip_yields h (Nat.lt_of_succ_lt hdepth))

theorem declared_yields {n : Nat} {rule : Rule (Option Stmt)} {reply : Reply Stmt (n + 1)}
    (follows : Follows tokens rule rest reply) (hdepth : n + 1 < depth)
    (reports : List Diagnostic) :
    Yields tokens (do
        let node ← rule
        if node.isNone then synchronize depth
        return node)
      (before tokens rest reports) reply.declared.1.node
      (before tokens reply.declared.1.rest (reports ++
        reply.declared.1.errors.map (SyntaxError.diagnostic (ending tokens)))) := by
  refine (follows.yields reports).bind ?_
  cases reply with
  | accepted node more errors shorter => exact yields_pure _ _
  | refused more errors notLonger =>
      refine (synchronize_yields follows.suffix ?_).bind (yields_pure _ _)
      exact Nat.lt_of_le_of_lt notLonger hdepth

/-! ## Declarations and blocks -/

theorem blockEnds_yields (h : rest <:+ body tokens) (reports : List Diagnostic) :
    Yields tokens (check .rightBrace <||> isAtEnd) (before tokens rest reports)
      (rest.head?.all (·.kind = .rightBrace)) (before tokens rest reports) := by
  refine (check_yields .rightBrace h).bind ?_
  cases rest with
  | nil => exact isAtEnd_yields h
  | cons token more =>
      by_cases hclosing : token.kind = .rightBrace
      · simp only [List.head?_cons, Option.any_some, Option.all_some, hclosing, decide_true]
        exact yields_pure _ _
      · simp only [List.head?_cons, Option.any_some, Option.all_some, hclosing, decide_false]
        exact isAtEnd_yields h

theorem closing_follows (nodes : List Stmt) (h : rest <:+ body tokens) :
    Follows tokens (do
        let some _ ← consume .rightBrace .closingBrace | return none
        return some nodes)
      rest ((expect .rightBrace .closingBrace rest).map fun _ => nodes) :=
  (consume_follows .rightBrace .closingBrace h).map _ rfl fun _ => rfl

mutual

theorem declaration_yields (depth : Nat) (token : Token) (more : List Token)
    (h : token :: more <:+ body tokens) (hdepth : 14 * more.length + 27 ≤ depth)
    (reports : List Diagnostic) :
    Yields tokens (declaration depth) (before tokens (token :: more) reports)
      (Stmt.readDeclaration token more).1.node
      (before tokens (Stmt.readDeclaration token more).1.rest (reports ++
        (Stmt.readDeclaration token more).1.errors.map
          (SyntaxError.diagnostic (ending tokens)))) := by
  match depth, hdepth with
  | depth + 1, hdepth =>
      have hmore := (List.suffix_cons token more).trans h
      rw [declaration, Stmt.readDeclaration]
      by_cases hvar : token.kind = .wordVar
      · rw [if_pos hvar]
        refine (accept_hit h (by simp [hvar])).bind ?_
        refine declared_yields (Follows.loosen ?_) (by omega) reports
        exact variableDeclaration_follows hmore (by omega)
      · rw [if_neg hvar]
        refine (accept_miss h (by simpa using hvar)).bind ?_
        exact declared_yields (statement_follows depth token more h (by omega)) (by omega) reports
termination_by depth

theorem statement_follows (depth : Nat) (token : Token) (more : List Token)
    (h : token :: more <:+ body tokens) (hdepth : 14 * more.length + 26 ≤ depth) :
    Follows tokens (statement depth) (token :: more)
      (if token.kind = .wordPrint then (Stmt.readPrint more).loosen
        else if token.kind = .leftBrace then ((Stmt.readBlock more).map Stmt.block).loosen
        else Stmt.readExpression (token :: more)) := by
  match depth, hdepth with
  | depth + 1, hdepth =>
      have hmore := (List.suffix_cons token more).trans h
      rw [statement]
      refine .accept h (fun hprint => ?_) fun hprint => ?_
      · simp only [List.mem_singleton.mp hprint, if_true]
        exact (printStatement_follows hmore (by omega)).loosen
      simp only [mt List.mem_singleton.mpr hprint, if_false]
      refine .accept h (fun hbrace => ?_) fun hbrace => ?_
      · simp only [List.mem_singleton.mp hbrace, if_true]
        have hsame : (Stmt.readBlock more).map ([] ++ ·) = Stmt.readBlock more := by
          cases Stmt.readBlock more <;> rfl
        have hblock := block_follows depth [] more hmore (by omega)
        rw [hsame] at hblock
        exact (hblock.map Stmt.block rfl fun _ => rfl).loosen
      · simp only [mt List.mem_singleton.mpr hbrace, if_false]
        exact expressionStatement_follows h (by simp only [List.length_cons]; omega)
termination_by depth

theorem block_follows (depth : Nat) (nodes : List Stmt) (rest : List Token)
    (h : rest <:+ body tokens) (hdepth : 14 * rest.length + 14 ≤ depth) :
    Follows tokens (block depth nodes) rest ((Stmt.readBlock rest).map (nodes ++ ·)) := by
  match depth, rest, hdepth with
  | depth + 1, [], _ =>
      rw [block, Stmt.readBlock]
      exact .after (blockEnds_yields h) (closing_follows nodes h)
  | depth + 1, token :: more, hdepth =>
      rw [List.length_cons] at hdepth
      rw [block, Stmt.readBlock]
      refine .after (blockEnds_yields h) ?_
      by_cases hclosing : token.kind = .rightBrace
      · have hread : (done [] more : Reply (List Stmt) (more.length + 1)).map (nodes ++ ·) =
            (expect .rightBrace .closingBrace (token :: more)).map fun _ => nodes := by
          simp [expect, hclosing, done, Reply.map]
        simp only [List.head?_cons, Option.all_some, hclosing, decide_true, if_true]
        rw [hread]
        exact closing_follows nodes h
      · have hfirst := declaration_yields depth token more h (by omega)
        have hrest := (Recovery.readDeclaration_blamed token more).suffix.trans h
        have shorter := (Stmt.readDeclaration token more).2
        have hothers := block_follows depth
          (nodes ++ (Stmt.readDeclaration token more).1.node.toList)
          (Stmt.readDeclaration token more).1.rest hrest (by omega)
        simp only [List.head?_cons, Option.all_some, hclosing, decide_false, if_false]
        refine ⟨by simpa using hothers.suffix, fun reports => (hfirst reports).bind ?_⟩
        simpa [Function.comp_def] using hothers.yields (reports ++
          (Stmt.readDeclaration token more).1.errors.map (SyntaxError.diagnostic (ending tokens)))
termination_by depth

end

/-! ## Whole token lists -/

theorem declarations_yields (depth : Nat) (nodes : List (Option Stmt)) (rest : List Token)
    (h : rest <:+ body tokens) (hdepth : 14 * rest.length + 14 ≤ depth)
    (reports : List Diagnostic) :
    Yields tokens (declarations depth nodes) (before tokens rest reports)
      (nodes ++ (Stmt.readDeclarations rest).map Declared.node)
      (before tokens [] (reports ++ ((Stmt.readDeclarations rest).flatMap Declared.errors).map
        (SyntaxError.diagnostic (ending tokens)))) := by
  match depth, rest, hdepth with
  | depth + 1, [], _ =>
      rw [declarations, Stmt.readDeclarations]
      simp only [List.map_nil, List.flatMap_nil, List.append_nil]
      exact (isAtEnd_yields h).bind (yields_pure _ _)
  | depth + 1, token :: more, hdepth =>
      have hrest := (Recovery.readDeclaration_blamed token more).suffix.trans h
      have shorter := (Stmt.readDeclaration token more).2
      rw [List.length_cons] at hdepth
      rw [declarations, Stmt.readDeclarations]
      refine (isAtEnd_yields h).bind ?_
      refine (declaration_yields depth token more h (by omega) reports).bind ?_
      simpa using declarations_yields depth (nodes ++ [(Stmt.readDeclaration token more).1.node])
        (Stmt.readDeclaration token more).1.rest hrest (by omega) (reports ++
          (Stmt.readDeclaration token more).1.errors.map (SyntaxError.diagnostic (ending tokens)))
termination_by depth

theorem Yields.of_end {α : Type} {rule : Rule α} {cursor after : Cursor} {value : α}
    (h : Yields tokens rule cursor value after) (hend : ∃ token ∈ tokens, token.kind = .eof) :
    rule cursor = some (.ok (value, after)) := by
  rcases h with hvalue | ⟨hnone, -⟩
  · exact hvalue
  · obtain ⟨token, hmem, hkind⟩ := hend
    exact absurd hkind (hnone token hmem)

theorem Yields.bind_fault {α β : Type} {rule : Rule α} {next : α → Rule β} {cursor after : Cursor}
    {value : α} (h : Yields tokens rule cursor value after)
    (hnext : next value after = some (.error .outOfRange)) :
    (rule >>= next) cursor = some (.error .outOfRange) := by
  rcases h with hvalue | ⟨-, hfault⟩
  · rw [bind_of_ok hvalue, hnext]
  · exact bind_of_error hfault

theorem isAtEnd_fault (hnone : ∀ token ∈ tokens, token.kind ≠ .eof) (reports : List Diagnostic) :
    isAtEnd (before tokens [] reports) = some (.error .outOfRange) := by
  have hnext := getElem?_before (List.nil_suffix (l := body tokens))
  have hbehind : tokens.dropWhile (·.kind ≠ .eof) = [] := by simpa using hnone
  rw [hbehind] at hnext
  have hpeek : peek (before tokens [] reports) = some (.error .outOfRange) := by
    unfold peek
    refine (bind_of_ok rfl).trans ?_
    show found tokens[(body tokens).length - [].length]? _ = _
    rw [hnext]
    rfl
  exact bind_of_error hpeek

theorem declarations_fault (hnone : ∀ token ∈ tokens, token.kind ≠ .eof) (depth : Nat)
    (nodes : List (Option Stmt)) (rest : List Token) (h : rest <:+ body tokens)
    (hdepth : 14 * rest.length + 14 ≤ depth) (reports : List Diagnostic) :
    declarations depth nodes (before tokens rest reports) = some (.error .outOfRange) := by
  match depth, rest, hdepth with
  | depth + 1, [], _ =>
      rw [declarations]
      exact bind_of_error (isAtEnd_fault hnone reports)
  | depth + 1, token :: more, hdepth =>
      have hrest := (Recovery.readDeclaration_blamed token more).suffix.trans h
      have shorter := (Stmt.readDeclaration token more).2
      have hdeclaration := declaration_yields depth token more h
        (by simp only [List.length_cons] at hdepth; omega) reports
      rw [List.length_cons] at hdepth
      rw [declarations]
      refine (isAtEnd_yields h).bind_fault (hdeclaration.bind_fault ?_)
      exact declarations_fault hnone depth _ _ hrest (by omega) _
termination_by depth

/-- At a cursor the list is read as the text, in which every declaration moves the cursor on. -/
structure ReadsAs (depth : Nat) (tokens : List Token) (text : TokenText) : Prop where
  progress : ∀ position < text.body.length, ∀ reports, ∃ declared,
    text.declarationAt? position = some declared ∧
    declaration depth ⟨tokens, position, reports⟩ = some (.ok (declared.node,
      ⟨tokens, text.position declared.rest, reports ++ text.diagnostics declared.errors⟩)) ∧
    position < text.position declared.rest ∧ text.position declared.rest ≤ text.body.length
  calls : ∃ nodes, declarations depth [] (start tokens) = some (.ok (nodes,
      ⟨tokens, text.body.length, text.program.diagnostics⟩)) ∧
    nodes.length ≤ text.body.length
  result : program depth (start tokens) = some (.ok (text.program.statements,
    ⟨tokens, text.body.length, text.program.diagnostics⟩))

theorem length_readDeclarations_le (tokens : List Token) :
    (Stmt.readDeclarations tokens).length ≤ tokens.length := by
  cases tokens with
  | nil =>
      rw [Stmt.readDeclarations]
      exact Nat.le_refl _
  | cons token more =>
      have shorter := (Stmt.readDeclaration token more).2
      have hothers := length_readDeclarations_le (Stmt.readDeclaration token more).1.rest
      rw [Stmt.readDeclarations, List.length_cons, List.length_cons]
      omega
termination_by tokens.length

section

variable {text : TokenText} (hbody : ∀ token ∈ text.body, token.kind ≠ .eof)
  (hending : text.ending.kind = .eof) (behind : List Token)

include hbody hending

theorem body_append : body (text.body ++ text.ending :: behind) = text.body := by
  rw [body, List.takeWhile_append_of_pos (by simpa using hbody)]
  simp [hending]

theorem ending_append : ending (text.body ++ text.ending :: behind) = text.ending := by
  rw [ending, List.dropWhile_append_of_pos (by simpa using hbody)]
  simp [hending]

theorem readsAs_append (hdepth : 14 * (text.body.length + 1) ≤ depth) :
    ReadsAs depth (text.body ++ text.ending :: behind) text := by
  have hend : ∃ token ∈ text.body ++ text.ending :: behind, token.kind = .eof :=
    ⟨text.ending, by simp, hending⟩
  have hsame := body_append hbody hending behind
  have hlast := ending_append hbody hending behind
  generalize htokens : text.body ++ text.ending :: behind = tokens at hend hsame hlast ⊢
  have hdeclarations := (declarations_yields depth [] text.body (by simp [hsame]) (by omega)
    []).of_end hend
  simp only [before, hsame, hlast, Nat.sub_self, List.nil_append, List.length_nil,
    Nat.sub_zero] at hdeclarations
  constructor
  case progress =>
    intro position hposition reports
    have hlength := List.length_drop (i := position) (l := text.body)
    have hsuffix := text.body.drop_suffix position
    rw [TokenText.declarationAt?]
    cases hdrop : text.body.drop position with
    | nil =>
        rw [hdrop, List.length_nil] at hlength
        omega
    | cons token more =>
        rw [hdrop] at hlength hsuffix
        have shorter := (Stmt.readDeclaration token more).2
        have hmore : more.length + 1 = text.body.length - position := hlength
        have hdeclaration := (declaration_yields depth token more (by rwa [hsame]) (by omega)
          reports).of_end hend
        simp only [before, hsame, hlast, hlength, Nat.sub_sub_self (Nat.le_of_lt hposition)]
          at hdeclaration
        refine ⟨_, rfl, hdeclaration, ?_, Nat.sub_le _ _⟩
        rw [TokenText.position]
        omega
  case calls =>
    refine ⟨_, hdeclarations, ?_⟩
    rw [List.length_map]
    exact length_readDeclarations_le text.body
  case result =>
    refine (bind_of_ok hdeclarations).trans ?_
    rw [List.filterMap_map]
    rfl

end

/--
With an end token the program is read to its end and no farther, whatever stands behind:
every declaration read in front of the end moves the cursor on and leaves it in front of
the end or there.  Without an end token the reader runs out of tokens.  In both cases it
ends, since the depth that suffices does not depend on more than the number of tokens.
-/
theorem program_ends_at_end :
    (∀ tokens : List Token, (∃ token ∈ tokens, token.kind = .eof) →
      ∃ text, TokenText.ofList? tokens = some text ∧
        text.body = tokens.takeWhile (·.kind ≠ .eof) ∧
        ∀ depth, 14 * (text.body.length + 1) ≤ depth → ReadsAs depth tokens text ∧
          ∀ behind, ReadsAs depth (text.body ++ text.ending :: behind) text) ∧
    (∀ tokens : List Token, (∀ token ∈ tokens, token.kind ≠ .eof) →
      ∀ depth, 14 * (tokens.length + 1) ≤ depth →
        program depth (start tokens) = some (.error .outOfRange)) := by
  constructor
  · intro tokens hend
    obtain ⟨text, htext, -⟩ := TokenText.exists_ofList hend
    obtain ⟨hbody, hending, behind, htokens⟩ := TokenText.exists_behind htext
    have hnone : ∀ token ∈ text.body, token.kind ≠ .eof := by
      intro token hmem
      rw [hbody] at hmem
      simpa using List.mem_takeWhile_imp hmem
    refine ⟨text, htext, hbody, fun depth hdepth => ⟨?_, fun behind' => ?_⟩⟩
    · rw [htokens]
      exact readsAs_append hnone hending behind hdepth
    · exact readsAs_append hnone hending behind' hdepth
  · intro tokens hnone depth hdepth
    -- All tokens are in front of the end that is missing.
    have hall : body tokens = tokens := by
      simpa [body] using hnone
    have hfault := declarations_fault hnone depth [] tokens (by simp [hall]) (by omega) []
    rw [before, hall, Nat.sub_self] at hfault
    exact bind_of_error hfault

/-- `{ ( ;` with the semicolon behind the end. -/
def brokenTokens : List Token :=
  [.bare .leftBrace "\x7b" 1, .bare .leftParen "(" 1, .ending 1,
    .bare .semicolon ";" 1]

theorem program_ends_at_end_broken :
    (∃ token ∈ brokenTokens, token.kind = .eof) ∧
      program 42 (start brokenTokens) = some (.ok ([],
        ⟨brokenTokens, 2, [.atToken (.ending 1) "Expect expression.",
          .atToken (.ending 1) "Expect '\x7d' after block."]⟩)) ∧
      (∀ token ∈ brokenTokens.take 2, token.kind ≠ .eof) ∧
      program 42 (start (brokenTokens.take 2)) = some (.error .outOfRange) := by
  have hend : ∃ token ∈ brokenTokens, token.kind = .eof := ⟨.ending 1, by decide, rfl⟩
  have hnone : ∀ token ∈ brokenTokens.take 2, token.kind ≠ .eof := by decide
  obtain ⟨text, htext, -, hreads⟩ := program_ends_at_end.1 brokenTokens hend
  obtain rfl := Option.some.inj (htext.symm.trans rfl)
  have hresult := (hreads 42 (by decide)).1.result
  refine ⟨hend, hresult.trans ?_, hnone, program_ends_at_end.2 _ hnone 42 (by decide)⟩
  cbv

end LoxLang.Cursor

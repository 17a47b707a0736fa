import LoxLang.Proofs.Lockstep.Declarations
import LoxLang.Proofs.Syntax.Programs
import LoxLang.Proofs.Syntax.WellFormed

/-!
# Recovery contains mistakes

Reading a declaration never gets behind its semicolon, and recovery stops right behind
it, unless a token on the way opens a block or starts a statement.  So segments without
such tokens are read as if each of them stood alone.
-/

namespace LoxLang

def TokenText.declarationAt? (text : TokenText) (position : Nat) : Option Declared :=
  match text.body.drop position with
  | [] => none
  | token :: rest => some (Stmt.readDeclaration token rest).1

namespace Recovery

/-- Tokens up to a semicolon: none but the first starts a statement, and that opens no block. -/
structure Segment where
  front : List Token
  semicolon : Token
  closed : semicolon.kind = .semicolon
  noSemicolon : ∀ token ∈ front, token.kind ≠ .semicolon
  noEnd : ∀ token ∈ front, token.kind ≠ .eof
  noBlock : ∀ token ∈ front.head?, token.kind ≠ .leftBrace
  noStart : ∀ token ∈ front.tail, ¬ startsStatement token.kind

namespace Segment

def toList (segment : Segment) : List Token :=
  segment.front ++ [segment.semicolon]

def alone (segment : Segment) (ending : Token) : TokenText :=
  ⟨segment.toList, ending⟩

theorem toList_kind_ne_eof (segment : Segment) :
    ∀ token ∈ segment.toList, token.kind ≠ .eof := by
  intro token hmem
  rcases List.mem_append.mp hmem with hmem | hmem
  · exact segment.noEnd token hmem
  · rw [List.mem_singleton.mp hmem, segment.closed]
    decide

theorem exists_toList_eq_cons (segment : Segment) : ∃ token rest,
    segment.toList = token :: rest ∧ token.kind ≠ .leftBrace := by
  have hblock := segment.noBlock
  unfold toList
  cases hfront : segment.front with
  | nil =>
      refine ⟨segment.semicolon, [], rfl, ?_⟩
      rw [segment.closed]
      decide
  | cons token rest =>
      rw [hfront] at hblock
      exact ⟨token, rest ++ [segment.semicolon], rfl, hblock token rfl⟩

end Segment

/-! ## Up to the semicolon -/

/-- The same tokens up to the semicolon, where only the first may start a statement. -/
def Ahead (semicolon : Token) (rest rest' : List Token) (tokens tokens' : List Token) : Prop :=
  ∃ front, (∀ token ∈ front, token.kind ≠ .semicolon) ∧
    (∀ token ∈ front.tail, ¬ startsStatement token.kind) ∧
      tokens = front ++ semicolon :: rest ∧ tokens' = front ++ semicolon :: rest'

section

variable {semicolon : Token} {rest rest' tokens tokens' : List Token}

theorem Ahead.headD_eq (h : Ahead semicolon rest rest' tokens tokens') (ending ending' : Token) :
    tokens.headD ending = tokens'.headD ending' := by
  obtain ⟨front, -, -, rfl, rfl⟩ := h
  cases front <;> rfl

theorem lockstep_ahead (hclosed : semicolon.kind = .semicolon) :
    Lockstep (· = ·) (Ahead semicolon rest rest')
      (fun after after' => after = rest ∧ after' = rest') where
  same := by
    rintro token _ rfl
    exact ⟨rfl, rfl, rfl⟩
  heads := by
    rintro tokens tokens' ⟨front, -, -, rfl, rfl⟩
    cases front <;> exact .cons rfl
  tail := by
    rintro token token' more more' ⟨front, hfront, hstart, htokens, htokens'⟩ hkind
    cases front with
    | nil =>
        obtain ⟨rfl, -⟩ := List.cons.inj htokens
        exact absurd hclosed hkind
    | cons first others =>
        obtain ⟨-, rfl⟩ := List.cons.inj htokens
        obtain ⟨-, rfl⟩ := List.cons.inj htokens'
        refine ⟨others, ?_, ?_, rfl, rfl⟩
        · intro token hmem
          exact hfront token (.tail _ hmem)
        · intro token hmem
          exact hstart token (List.mem_of_mem_tail hmem)
  behind := by
    rintro token token' more more' ⟨front, hfront, -, htokens, htokens'⟩ hkind
    cases front with
    | nil => exact ⟨(List.cons.inj htokens).2, (List.cons.inj htokens').2⟩
    | cons first others =>
        obtain ⟨rfl, -⟩ := List.cons.inj htokens
        exact absurd hkind (hfront token (.head _))

theorem skipStatement_of_semicolon (hclosed : semicolon.kind = .semicolon) (rest : List Token) :
    skipStatement semicolon rest = rest := by
  cases rest <;> simp [skipStatement, hclosed]

theorem skipStatement_append (hclosed : semicolon.kind = .semicolon) {previous : Token}
    (hprevious : previous.kind ≠ .semicolon) {front : List Token}
    (hfront : ∀ token ∈ front, token.kind ≠ .semicolon)
    (hstart : ∀ token ∈ front, ¬ startsStatement token.kind) (rest : List Token) :
    skipStatement previous (front ++ semicolon :: rest) = rest := by
  induction front generalizing previous with
  | nil =>
      have hword : startsStatement semicolon.kind = false := by
        rw [hclosed]
        rfl
      -- The semicolon is skipped as well, and what is behind it is not looked at.
      simp [skipStatement, hprevious, hword, skipStatement_of_semicolon hclosed]
  | cons token others ih =>
      have hskip := ih (hfront token (.head _)) (fun t ht => hfront t (.tail _ ht))
        (fun t ht => hstart t (.tail _ ht))
      have hword : startsStatement token.kind = false := by
        simpa using hstart token (.head _)
      simp [skipStatement, hprevious, hword, hskip]

theorem recover_append (hclosed : semicolon.kind = .semicolon) {front : List Token}
    (hfront : ∀ token ∈ front, token.kind ≠ .semicolon)
    (hstart : ∀ token ∈ front.tail, ¬ startsStatement token.kind) (rest : List Token) :
    recover (front ++ semicolon :: rest) = rest := by
  cases front with
  | nil => exact skipStatement_of_semicolon hclosed rest
  | cons token others =>
      exact skipStatement_append hclosed (hfront token (.head _))
        (fun t ht => hfront t (.tail _ ht)) hstart rest

theorem Ahead.recover_eq (hclosed : semicolon.kind = .semicolon)
    (h : Ahead semicolon rest rest' tokens tokens') :
    recover tokens = rest ∧ recover tokens' = rest' := by
  obtain ⟨front, hfront, hstart, rfl, rfl⟩ := h
  exact ⟨recover_append hclosed hfront hstart rest, recover_append hclosed hfront hstart rest'⟩

end

/-! ## One segment -/

/-- The declaration ends behind the semicolon, and what it is does not depend on what follows. -/
structure Contained (semicolon : Token) (after after' : List Token)
    (declared declared' : Declared) : Prop where
  node : declared.node = declared'.node
  rest : declared.rest = after
  rest' : declared'.rest = after'
  errors : List.Forall₂ (SyntaxError.Alike (Ahead semicolon after after')) declared.errors
    declared'.errors

theorem Contained.of_alike {semicolon : Token} {rest rest' : List Token}
    (hclosed : semicolon.kind = .semicolon) {n n' : Nat} {reply : Reply Stmt (n + 1)}
    {reply' : Reply Stmt (n' + 1)}
    (alike : reply.Alike (Stmt.Alike (· = ·)) (fun after after' => after = rest ∧ after' = rest')
      (Ahead semicolon rest rest') reply') :
    Contained semicolon rest rest' reply.declared.1 reply'.declared.1 := by
  cases reply with
  | accepted value after errors shorter =>
      cases reply' with
      | accepted value' after' errors' shorter' =>
          obtain ⟨hvalue, ⟨hrest, hrest'⟩, herrors⟩ := alike
          exact ⟨congrArg some hvalue.eq, hrest, hrest', herrors⟩
      | refused => exact alike.elim
  | refused after errors notLonger =>
      cases reply' with
      | accepted => exact alike.elim
      | refused after' errors' notLonger' =>
          obtain ⟨hafter, herrors⟩ := alike
          -- Wherever the rule gave up, the semicolon was still ahead.
          obtain ⟨hrest, hrest'⟩ := hafter.recover_eq hclosed
          exact ⟨rfl, hrest, hrest', herrors⟩

theorem Segment.ahead (segment : Segment) (rest rest' : List Token) :
    Ahead segment.semicolon rest rest' (segment.toList ++ rest) (segment.toList ++ rest') :=
  ⟨segment.front, segment.noSemicolon, segment.noStart, by simp [toList], by simp [toList]⟩

theorem Segment.contained (segment : Segment) {token : Token} {more : List Token}
    (hsegment : segment.toList = token :: more) (hblock : token.kind ≠ .leftBrace)
    (rest rest' : List Token) :
    Contained segment.semicolon rest rest' (Stmt.readDeclaration token (more ++ rest)).1
      (Stmt.readDeclaration token (more ++ rest')).1 := by
  have hahead := segment.ahead rest rest'
  rw [hsegment] at hahead
  have halike := Stmt.readSimple_alike (lockstep_ahead segment.closed) hahead
  rw [Stmt.readDeclaration_eq_readSimple hblock, Stmt.readDeclaration_eq_readSimple hblock]
  exact .of_alike segment.closed halike

/-! ## Diagnostics -/

theorem diagnostics_eq {semicolon : Token} {rest rest' : List Token}
    {errors errors' : List SyntaxError}
    (h : List.Forall₂ (SyntaxError.Alike (Ahead semicolon rest rest')) errors errors')
    (text text' : TokenText) : text.diagnostics errors = text'.diagnostics errors' := by
  unfold TokenText.diagnostics
  induction h with
  | nil => rfl
  | cons herror _ ih =>
      obtain ⟨hcause, hunread⟩ := herror
      have hhead := hunread.headD_eq text.ending text'.ending
      simp only [List.map_cons, ih, SyntaxError.diagnostic, hhead, hcause]

theorem readSimple_orderly (token : Token) (rest : List Token) :
    (Stmt.readSimple token rest).Orderly Stmt.WellFormed := by
  unfold Stmt.readSimple
  split
  · exact (Stmt.readVariable_orderly rest).loosen
  · split
    · exact (Stmt.readPrint_orderly rest).loosen
    · exact Stmt.readExpression_orderly (token :: rest)

theorem countP_diagnostics (text : TokenText) (errors : List SyntaxError) :
    (text.diagnostics errors).countP (·.message ≠ "Invalid assignment target.") =
      errors.countP (·.cause.isPanic) := by
  rw [TokenText.diagnostics, List.countP_map]
  refine List.countP_congr ?_
  intro error _
  simp [SyntaxError.diagnostic, Diagnostic.atToken, SyntaxError.Cause.isPanic_iff]

theorem countP_diagnostics_le {token : Token} (hblock : token.kind ≠ .leftBrace)
    (rest : List Token) (text : TokenText) :
    (text.diagnostics (Stmt.readDeclaration token rest).1.errors).countP
      (·.message ≠ "Invalid assignment target.") ≤ 1 := by
  rw [countP_diagnostics, Stmt.readDeclaration_eq_readSimple hblock, Reply.errors_declared]
  exact (readSimple_orderly token rest).countP_errors_le

/-! ## Texts made of segments -/

theorem readDeclarations_cons (token : Token) (rest : List Token) :
    Stmt.readDeclarations (token :: rest) = (Stmt.readDeclaration token rest).1 ::
      Stmt.readDeclarations (Stmt.readDeclaration token rest).1.rest := by
  rw [Stmt.readDeclarations]

theorem program_eq_flatMap (text : TokenText) :
    text.program = ⟨(Stmt.readDeclarations text.body).flatMap (·.node.toList),
      (Stmt.readDeclarations text.body).flatMap fun declared =>
        text.diagnostics declared.errors⟩ := by
  simp only [TokenText.program, TokenText.diagnostics, List.map_flatMap]
  rw [List.filterMap_eq_flatMap_toList]

theorem Segment.program_alone (segment : Segment) {token : Token} {more : List Token}
    (hsegment : segment.toList = token :: more) (hblock : token.kind ≠ .leftBrace)
    (ending : Token) :
    (segment.alone ending).program = ⟨(Stmt.readDeclaration token more).1.node.toList,
      (segment.alone ending).diagnostics (Stmt.readDeclaration token more).1.errors⟩ := by
  have hrest := (segment.contained hsegment hblock [] []).rest
  rw [List.append_nil] at hrest
  have hread : Stmt.readDeclarations (segment.alone ending).body =
      [(Stmt.readDeclaration token more).1] := by
    rw [Segment.alone, hsegment, readDeclarations_cons, hrest, Stmt.readDeclarations]
  rw [program_eq_flatMap, hread]
  simp only [List.flatMap_cons, List.flatMap_nil, List.append_nil]

/-- In front of any tokens a segment is one declaration, the one it is alone. -/
theorem Segment.declaration_eq_alone (segment : Segment) {token : Token} {more : List Token}
    (hsegment : segment.toList = token :: more) (hblock : token.kind ≠ .leftBrace)
    (rest : List Token) (text : TokenText) (ending : Token) :
    (segment.alone ending).program = ⟨(Stmt.readDeclaration token (more ++ rest)).1.node.toList,
      text.diagnostics (Stmt.readDeclaration token (more ++ rest)).1.errors⟩ := by
  have hcontained := segment.contained hsegment hblock rest []
  rw [List.append_nil] at hcontained
  rw [segment.program_alone hsegment hblock, hcontained.node,
    diagnostics_eq hcontained.errors text (segment.alone ending)]

theorem ofList_append {front rest : List Token} (hfront : ∀ token ∈ front, token.kind ≠ .eof)
    (hrest : ∃ token ∈ rest, token.kind = .eof) :
    ∃ text, TokenText.ofList? (front ++ rest) = some text ∧
      text.body = front ++ rest.takeWhile (·.kind ≠ .eof) := by
  obtain ⟨token, hmem, hkind⟩ := hrest
  obtain ⟨text, htext, hbody⟩ :=
    TokenText.exists_ofList ⟨token, List.mem_append_right front hmem, hkind⟩
  refine ⟨text, htext, ?_⟩
  rw [hbody, List.takeWhile_append_of_pos (by simpa using hfront)]

theorem ofList_append_ending {front : List Token} (hfront : ∀ token ∈ front, token.kind ≠ .eof)
    {ending : Token} (hending : ending.kind = .eof) :
    TokenText.ofList? (front ++ [ending]) = some ⟨front, ending⟩ := by
  have hpos : ∀ token ∈ front, decide (token.kind ≠ .eof) = true := by simpa using hfront
  rw [TokenText.ofList?, List.dropWhile_append_of_pos hpos, List.takeWhile_append_of_pos hpos]
  simp [hending]

def joined (pieces : List (Segment × Token)) : List Token :=
  pieces.flatMap (·.1.toList)

theorem joined_kind_ne_eof (pieces : List (Segment × Token)) :
    ∀ token ∈ joined pieces, token.kind ≠ .eof := by
  intro token hmem
  obtain ⟨piece, -, htoken⟩ := List.mem_flatMap.mp hmem
  exact piece.1.toList_kind_ne_eof token htoken

theorem program_joined (pieces : List (Segment × Token)) (text : TokenText)
    (hbody : text.body = joined pieces) :
    text.program = ⟨pieces.flatMap fun piece => (piece.1.alone piece.2).program.statements,
      pieces.flatMap fun piece => (piece.1.alone piece.2).program.diagnostics⟩ := by
  rw [program_eq_flatMap, hbody]
  clear hbody
  induction pieces with
  | nil =>
      rw [joined, List.flatMap_nil, Stmt.readDeclarations]
      rfl
  | cons piece others ih =>
      obtain ⟨segment, own⟩ := piece
      obtain ⟨token, more, hsegment, hblock⟩ := segment.exists_toList_eq_cons
      have hrest := (segment.contained hsegment hblock (joined others) []).rest
      have hread : Stmt.readDeclarations (joined ((segment, own) :: others)) =
          (Stmt.readDeclaration token (more ++ joined others)).1 ::
            Stmt.readDeclarations (joined others) := by
        rw [joined, List.flatMap_cons, hsegment, List.cons_append, readDeclarations_cons]
        exact congrArg _ (congrArg Stmt.readDeclarations hrest)
      obtain ⟨hstatements, hdiagnostics⟩ := Program.mk.inj ih
      simp only [hread, List.flatMap_cons, hstatements, hdiagnostics,
        segment.declaration_eq_alone hsegment hblock (joined others) text own]

/--
A segment is one declaration wherever it stands: the declaration that starts with it
ends behind its semicolon, and has the node and the diagnostics of the segment alone,
at most one of them about something else than the target of an assignment.  So
segments one after the other are read as each of them alone.
-/
theorem segments_contained :
    (∀ (segment : Segment) (before after : List Token) (own : Token),
      (∀ token ∈ before, token.kind ≠ .eof) → (∃ token ∈ after, token.kind = .eof) →
        own.kind = .eof →
      ∃ text alone declared,
        TokenText.ofList? (before ++ segment.toList ++ after) = some text ∧
        TokenText.ofList? (segment.toList ++ [own]) = some alone ∧
        text.declarationAt? before.length = some declared ∧
        declared.rest = text.body.drop (before.length + segment.toList.length) ∧
        text.position declared.rest = before.length + segment.toList.length ∧
        alone.program = ⟨declared.node.toList, text.diagnostics declared.errors⟩ ∧
        (text.diagnostics declared.errors).countP
          (·.message ≠ "Invalid assignment target.") ≤ 1) ∧
    (∀ (pieces : List (Segment × Token)) (ending : Token),
      (∀ piece ∈ pieces, piece.2.kind = .eof) → ending.kind = .eof →
      ∃ text,
        TokenText.ofList? ((pieces.flatMap fun piece => piece.1.toList) ++ [ending]) = some text ∧
        (∀ piece ∈ pieces,
          TokenText.ofList? (piece.1.toList ++ [piece.2]) = some (piece.1.alone piece.2)) ∧
        text.program.statements =
          (pieces.flatMap fun piece => (piece.1.alone piece.2).program.statements) ∧
        text.program.diagnostics =
          pieces.flatMap fun piece => (piece.1.alone piece.2).program.diagnostics) := by
  constructor
  · intro segment before after own hbefore hafter hown
    obtain ⟨token, more, hsegment, hblock⟩ := segment.exists_toList_eq_cons
    have hfront : ∀ token ∈ before ++ segment.toList, token.kind ≠ .eof := by
      intro token hmem
      rcases List.mem_append.mp hmem with hmem | hmem
      · exact hbefore token hmem
      · exact segment.toList_kind_ne_eof token hmem
    obtain ⟨text, htext, hbody⟩ := ofList_append hfront hafter
    have halone := ofList_append_ending segment.toList_kind_ne_eof hown
    let rest := after.takeWhile (·.kind ≠ .eof)
    have hrest : (Stmt.readDeclaration token (more ++ rest)).1.rest =
        text.body.drop (before.length + segment.toList.length) := by
      rw [(segment.contained hsegment hblock rest []).rest, hbody, ← List.length_append,
        List.drop_left]
    refine ⟨text, segment.alone own, (Stmt.readDeclaration token (more ++ rest)).1, htext, halone,
      ?_, hrest, ?_, segment.declaration_eq_alone hsegment hblock rest text own,
      countP_diagnostics_le hblock _ text⟩
    · rw [TokenText.declarationAt?, hbody, List.append_assoc, List.drop_left, hsegment]
      rfl
    · have hlength : before.length + segment.toList.length ≤ text.body.length := by
        rw [hbody, List.length_append, List.length_append]
        omega
      rw [TokenText.position, hrest, List.length_drop]
      omega
  · intro pieces ending hown hending
    have htext := ofList_append_ending (joined_kind_ne_eof pieces) hending
    have hprogram := program_joined pieces ⟨joined pieces, ending⟩ rfl
    refine ⟨_, htext, ?_, congrArg Program.statements hprogram,
      congrArg Program.diagnostics hprogram⟩
    intro piece hpiece
    exact ofList_append_ending piece.1.toList_kind_ne_eof (hown piece hpiece)

/-- `( nil ;`, where the parenthesis is missed at the semicolon. -/
def unclosed : Segment where
  front := [.bare .leftParen "(" 1, .bare .wordNil "nil" 1]
  semicolon := .bare .semicolon ";" 1
  closed := rfl
  noSemicolon := by decide
  noEnd := by decide
  noBlock := by decide
  noStart := by decide

/-- `class = nil ;`, which starts with the keyword of an unknown statement. -/
def unknown : Segment where
  front := [.bare .wordClass "class" 1, .bare .equal "=" 1, .bare .wordNil "nil" 1]
  semicolon := .bare .semicolon ";" 1
  closed := rfl
  noSemicolon := by decide
  noEnd := by decide
  noBlock := by decide
  noStart := by decide

/-- `print nil = a ;`, which is read to its end in spite of its mistake. -/
def misplaced : Segment where
  front := [.bare .wordPrint "print" 1, .bare .wordNil "nil" 1, .bare .equal "=" 1,
    .bare .identifier "a" 1]
  semicolon := .bare .semicolon ";" 1
  closed := rfl
  noSemicolon := by decide
  noEnd := by decide
  noBlock := by decide
  noStart := by decide

theorem segments_contained_sample :
    (∃ text declared,
      TokenText.ofList? ([.bare .leftBrace "\x7b" 1] ++ unclosed.toList ++
        [.bare .rightBrace "\x7d" 1, .ending 1]) = some text ∧
      text.declarationAt? 1 = some declared ∧ declared.node = none ∧
      declared.rest = [.bare .rightBrace "\x7d" 1]) ∧
    (∃ text,
      TokenText.ofList? (unclosed.toList ++ unknown.toList ++ misplaced.toList ++ [.ending 1]) =
        some text ∧
      text.program.statements = [.print (.literal .nil)] ∧
      text.program.diagnostics.map Diagnostic.message =
        ["Expect ')' after expression.", "Expect expression.", "Invalid assignment target."]) := by
  obtain ⟨hone, hmany⟩ := segments_contained
  constructor
  · obtain ⟨text, alone, declared, htext, halone, hdeclared, hrest, -, hprogram, -⟩ :=
      hone unclosed [.bare .leftBrace "\x7b" 1] [.bare .rightBrace "\x7d" 1, .ending 1] (.ending 1)
        (by decide) (by decide) rfl
    obtain rfl := Option.some.inj (htext.symm.trans rfl)
    obtain rfl := Option.some.inj (halone.symm.trans rfl)
    refine ⟨_, declared, htext, hdeclared, ?_, hrest⟩
    have hnone : declared.node.toList = [] := by
      refine (congrArg Program.statements hprogram).symm.trans ?_
      cbv
    cases hnode : declared.node with
    | none => rfl
    | some node => simp [hnode] at hnone
  · obtain ⟨text, htext, -, hstatements, hdiagnostics⟩ :=
      hmany [(unclosed, .ending 1), (unknown, .ending 1), (misplaced, .ending 1)] (.ending 1)
        (by decide) rfl
    simp only [List.flatMap_cons, List.flatMap_nil] at hstatements hdiagnostics
    refine ⟨text, htext, hstatements.trans ?_, ?_⟩
    · cbv
    · rw [hdiagnostics]
      cbv

end Recovery

end LoxLang

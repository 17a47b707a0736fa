import LoxLang.Proofs.Grammar.Statement
import LoxLang.Proofs.Syntax.Expressions
import LoxLang.Syntax.Program
import Mathlib.Data.List.TakeWhile

/-!
# Reading programs

A text is read without an error exactly when the grammar derives it, and what is
read is then the tree of its only derivation.
-/

namespace LoxLang

open LoxLang.Grammar LoxLang.Reply

def Declared.Clean (declared : Declared) (node : Stmt) (rest : List Token) : Prop :=
  declared.node = some node ∧ declared.rest = rest ∧ declared.errors = []

theorem Reply.node_declared {n : Nat} (reply : Reply Stmt (n + 1)) :
    reply.declared.1.node = reply.value? := by
  cases reply <;> rfl

theorem Reply.errors_declared {n : Nat} (reply : Reply Stmt (n + 1)) :
    reply.declared.1.errors = reply.errors := by
  cases reply <;> rfl

theorem Reply.clean_declared {n : Nat} {reply : Reply Stmt (n + 1)} {node : Stmt}
    {rest : List Token} : reply.declared.1.Clean node rest ↔ reply.Clean node rest := by
  cases reply with
  | accepted value middle errors shorter => simp [Reply.declared, Declared.Clean]
  | refused middle errors notLonger => simp [Reply.declared, Declared.Clean]

theorem Reply.Explained.declared {n : Nat} {reply : Reply Stmt (n + 1)}
    (explained : reply.Explained) (h : reply.declared.1.errors = []) :
    ∃ node, reply.declared.1.Clean node reply.declared.1.rest := by
  cases reply with
  | accepted value rest errors shorter => exact ⟨value, rfl, rfl, h⟩
  | refused rest errors notLonger =>
      obtain ⟨value, hclean⟩ := explained h
      exact absurd hclean not_clean_refused

namespace Stmt

/-! ## No refusal without an error -/

theorem endedBy_explained (node : Stmt) (cause : SyntaxError.Cause) (tokens : List Token) :
    (node.endedBy cause tokens).Explained :=
  explained_expect.loosen.map _

theorem readVariable_explained (tokens : List Token) : (readVariable tokens).Explained := by
  apply explained_expect.andThen
  intro name middle shorter
  cases middle with
  | nil => exact endedBy_explained _ _ _
  | cons equals rest =>
      dsimp only
      split
      · exact ((Expr.read_explained rest).andThen fun initial rest' _ =>
          endedBy_explained _ _ _).loosen.loosen
      · exact endedBy_explained _ _ _

theorem readPrint_explained (tokens : List Token) : (readPrint tokens).Explained :=
  (Expr.read_explained tokens).andThen fun _ _ _ => endedBy_explained _ _ _

theorem readExpression_explained (tokens : List Token) : (readExpression tokens).Explained :=
  (Expr.read_explained tokens).andThen fun _ _ _ => endedBy_explained _ _ _

theorem readBlock_explained (tokens : List Token) : (readBlock tokens).Explained := by
  cases tokens with
  | nil =>
      rw [readBlock]
      exact explained_blame
  | cons token rest =>
      rw [readBlock]
      split
      · exact explained_done
      · have shorter := (readDeclaration token rest).2
        exact (((readBlock_explained _).map _).after _).widen _
termination_by tokens.length

theorem readDeclaration_explained (token : Token) (rest : List Token)
    (h : (readDeclaration token rest).1.errors = []) :
    ∃ node, (readDeclaration token rest).1.Clean node (readDeclaration token rest).1.rest := by
  rw [readDeclaration] at h ⊢
  refine Explained.declared ?_ h
  split
  · exact (readVariable_explained rest).loosen
  · split
    · exact (readPrint_explained rest).loosen
    · split
      · exact ((readBlock_explained rest).map _).loosen
      · exact readExpression_explained (token :: rest)

/-! ## Reading and deriving -/

theorem endedBy_clean_iff {node node' : Stmt} {cause : SyntaxError.Cause}
    {tokens rest : List Token} :
    (node.endedBy cause tokens).Clean node' rest ↔
      ∃ semicolon, tokens = semicolon :: rest ∧ semicolon.kind = .semicolon ∧ node = node' := by
  simp only [endedBy, clean_map, clean_loosen, clean_expect, and_assoc]

theorem readPrint_clean_iff {token : Token} {tokens rest : List Token} {node : Stmt}
    (hword : token.kind = .wordPrint) :
    (readPrint tokens).Clean node rest ↔ Parses .printStmt (token :: tokens) node rest := by
  rw [readPrint, clean_andThen, parses_printStmt_iff]
  constructor
  · rintro ⟨value, middle, -, hvalue, hend⟩
    obtain ⟨semicolon, rfl, hkind, hnode⟩ := endedBy_clean_iff.mp hend
    rw [Expr.read_clean_iff, ← parses_expression_iff] at hvalue
    exact ⟨hword, value, semicolon, hvalue, hkind, hnode⟩
  · rintro ⟨-, value, semicolon, hvalue, hkind, hnode⟩
    rw [parses_expression_iff, ← Expr.read_clean_iff] at hvalue
    exact ⟨value, semicolon :: rest, hvalue.shorter, hvalue,
      endedBy_clean_iff.mpr ⟨semicolon, rfl, hkind, hnode⟩⟩

theorem readExpression_clean_iff {tokens rest : List Token} {node : Stmt} :
    (readExpression tokens).Clean node rest ↔ Parses .exprStmt tokens node rest := by
  rw [readExpression, clean_andThen, parses_exprStmt_iff]
  constructor
  · rintro ⟨value, middle, -, hvalue, hend⟩
    obtain ⟨semicolon, rfl, hkind, hnode⟩ := endedBy_clean_iff.mp hend
    rw [Expr.read_clean_iff, ← parses_expression_iff] at hvalue
    exact ⟨value, semicolon, hvalue, hkind, hnode⟩
  · rintro ⟨value, semicolon, hvalue, hkind, hnode⟩
    rw [parses_expression_iff, ← Expr.read_clean_iff] at hvalue
    exact ⟨value, semicolon :: rest, hvalue.shorter, hvalue,
      endedBy_clean_iff.mpr ⟨semicolon, rfl, hkind, hnode⟩⟩

theorem readVariable_clean_iff {token : Token} {tokens rest : List Token} {node : Stmt}
    (hword : token.kind = .wordVar) :
    (readVariable tokens).Clean node rest ↔ Parses .varDecl (token :: tokens) node rest := by
  rw [readVariable, clean_andThen, parses_varDecl_iff]
  constructor
  · rintro ⟨name, middle, shorter, hname, hnext⟩
    obtain ⟨rfl, hkind⟩ := clean_expect.mp hname
    refine ⟨hword, name, middle, rfl, hkind, ?_⟩
    match middle, shorter with
    | [], _ =>
        obtain ⟨semicolon, hmiddle, -⟩ := endedBy_clean_iff.mp hnext
        cases hmiddle
    | equals :: after, shorter =>
        dsimp only at hnext
        split at hnext
        next hequals =>
          simp only [clean_loosen, clean_andThen, endedBy_clean_iff] at hnext
          obtain ⟨initial, _, _, hinitial, semicolon, rfl, hsemicolon, hnode⟩ := hnext
          rw [Expr.read_clean_iff, ← parses_expression_iff] at hinitial
          exact .inr ⟨equals, after, initial, semicolon, rfl, hequals, hinitial, hsemicolon, hnode⟩
        next hequals => exact .inl (endedBy_clean_iff.mp hnext)
  · rintro ⟨-, name, more, rfl, hname, hmore⟩
    refine ⟨name, more, Nat.lt_succ_self _, clean_expect.mpr ⟨rfl, hname⟩, ?_⟩
    rcases hmore with ⟨semicolon, rfl, hkind, hnode⟩ |
      ⟨equals, after, initial, semicolon, rfl, hequals, hinitial, hkind, hnode⟩
    · have hother : semicolon.kind ≠ .equal := by simp [hkind]
      simp only [if_neg hother]
      exact endedBy_clean_iff.mpr ⟨semicolon, rfl, hkind, hnode⟩
    · simp only [if_pos hequals, clean_loosen, clean_andThen, endedBy_clean_iff]
      rw [parses_expression_iff, ← Expr.read_clean_iff] at hinitial
      exact ⟨initial, semicolon :: rest, hinitial.shorter, hinitial, semicolon, rfl, hkind, hnode⟩

mutual

theorem readDeclaration_clean_iff (token : Token) (tokens : List Token) {node : Stmt}
    {rest : List Token} :
    (readDeclaration token tokens).1.Clean node rest ↔
      Parses .declaration (token :: tokens) node rest := by
  rw [readDeclaration, clean_declared, parses_declaration_iff]
  split
  next hvar =>
    rw [clean_loosen, readVariable_clean_iff hvar]
    constructor
    · exact .inl
    · rintro (h | h | ⟨_, h, -⟩ | h)
      · exact h
      all_goals exact absurd (parses_kind rfl h) (by rw [hvar]; decide)
  next hvar =>
    split
    next hprint =>
      rw [clean_loosen, readPrint_clean_iff hprint]
      constructor
      · exact fun h => .inr (.inl h)
      · rintro (h | h | ⟨_, h, -⟩ | h)
        · exact absurd (parses_kind rfl h) (by rw [hprint]; decide)
        · exact h
        all_goals exact absurd (parses_kind rfl h) (by rw [hprint]; decide)
    next hprint =>
      split
      next hbrace =>
        simp only [clean_loosen, clean_map]
        constructor
        · rintro ⟨body, hbody, hnode⟩
          rw [readBlock_clean_iff tokens] at hbody
          exact .inr (.inr (.inl ⟨body, parses_block_iff.mpr ⟨hbrace, hbody⟩, hnode⟩))
        · rintro (h | h | ⟨body, h, hnode⟩ | h)
          · exact absurd (parses_kind rfl h) (by rw [hbrace]; decide)
          · exact absurd (parses_kind rfl h) (by rw [hbrace]; decide)
          · exact ⟨body, (readBlock_clean_iff tokens).mpr (parses_block_iff.mp h).2, hnode⟩
          · exact absurd (parses_kind rfl h) (by rw [hbrace]; decide)
      next hbrace =>
        rw [readExpression_clean_iff]
        constructor
        · exact fun h => .inr (.inr (.inr h))
        · rintro (h | h | ⟨_, h, -⟩ | h)
          · exact absurd (List.mem_singleton.mp (parses_kind rfl h)) hvar
          · exact absurd (List.mem_singleton.mp (parses_kind rfl h)) hprint
          · exact absurd (List.mem_singleton.mp (parses_kind rfl h)) hbrace
          · exact h
termination_by (tokens.length, 1)

theorem readBlock_clean_iff (tokens : List Token) {nodes : List Stmt} {rest : List Token} :
    (readBlock tokens).Clean nodes rest ↔ ParsesBody tokens nodes rest := by
  match tokens with
  | [] =>
      rw [readBlock]
      exact iff_of_false not_clean_blame not_parsesBody_nil
  | token :: more =>
      rw [readBlock]
      split
      next hclosing =>
        rw [parsesBody_closing hclosing, clean_done]
        simp [eq_comm]
      next hother =>
        have shorter := (readDeclaration token more).2
        rw [parsesBody_declaration hother]
        simp only [clean_widen, clean_after, clean_map]
        constructor
        · rintro ⟨herrors, others, hothers, rfl⟩
          obtain ⟨first, hfirst⟩ := readDeclaration_explained token more herrors
          have hnode := hfirst.1
          rw [readDeclaration_clean_iff token more] at hfirst
          rw [readBlock_clean_iff] at hothers
          exact ⟨first, _, others, hfirst, hothers, by rw [hnode]; rfl⟩
        · rintro ⟨first, middle, others, hfirst, hothers, rfl⟩
          obtain ⟨hnode, rfl, herrors⟩ := (readDeclaration_clean_iff token more).mpr hfirst
          rw [← readBlock_clean_iff] at hothers
          exact ⟨herrors, others, hothers, by rw [hnode]; rfl⟩
termination_by (tokens.length, 0)

end

theorem readDeclarations_clean_iff (tokens : List Token) {nodes : List Stmt} :
    (∀ declared ∈ readDeclarations tokens, declared.errors = []) ∧
        (readDeclarations tokens).filterMap Declared.node = nodes ↔
      ∃ d : Derivation (.symbol .program), d.tree = nodes ∧ d.yield = tokens := by
  match tokens with
  | [] =>
      rw [readDeclarations, derives_program_nil]
      simp [eq_comm]
  | token :: more =>
      have shorter := (readDeclaration token more).2
      rw [readDeclarations, derives_program_cons]
      simp only [List.forall_mem_cons, List.filterMap_cons]
      constructor
      · rintro ⟨⟨herrors, hothers⟩, rfl⟩
        obtain ⟨first, hfirst⟩ := readDeclaration_explained token more herrors
        refine ⟨first, _, _, (readDeclaration_clean_iff token more).mp hfirst,
          (readDeclarations_clean_iff _).mp ⟨hothers, rfl⟩, ?_⟩
        rw [hfirst.1]
        rfl
      · rintro ⟨first, middle, others, hfirst, hothers, rfl⟩
        obtain ⟨hnode, rfl, herrors⟩ := (readDeclaration_clean_iff token more).mpr hfirst
        obtain ⟨hclean, rfl⟩ := (readDeclarations_clean_iff _).mpr hothers
        rw [hnode]
        exact ⟨⟨herrors, hclean⟩, rfl⟩
termination_by tokens.length

end Stmt

namespace TokenText

theorem exists_ofList {tokens : List Token} (h : ∃ token ∈ tokens, token.kind = .eof) :
    ∃ text, ofList? tokens = some text ∧ text.body = tokens.takeWhile (·.kind ≠ .eof) := by
  obtain ⟨token, hmem, hkind⟩ := h
  unfold ofList?
  split
  next hnone =>
    have hall := List.dropWhile_eq_nil_iff.mp hnone token hmem
    simp [hkind] at hall
  next ending others hsome => exact ⟨_, rfl, rfl⟩

theorem exists_behind {tokens : List Token} {text : TokenText} (h : ofList? tokens = some text) :
    text.body = tokens.takeWhile (·.kind ≠ .eof) ∧ text.ending.kind = .eof ∧
      ∃ behind, tokens = text.body ++ text.ending :: behind := by
  unfold ofList? at h
  split at h
  next => cases h
  next ending behind hbehind =>
    obtain rfl := Option.some.inj h
    have hending := List.head?_dropWhile_not (fun token : Token => decide (token.kind ≠ .eof)) tokens
    rw [hbehind] at hending
    refine ⟨rfl, by simpa using hending, behind, ?_⟩
    rw [← hbehind, List.takeWhile_append_dropWhile]

theorem diagnostics_program_eq_nil_iff {text : TokenText} :
    text.program.diagnostics = [] ↔
      ∀ declared ∈ Stmt.readDeclarations text.body, declared.errors = [] := by
  simp [program, diagnostics]

/--
A token list with an end token is read without a diagnostic exactly when the kinds
of the tokens before the first end token derive `program`.  The tokens then have
one derivation only, and the statements are its tree.
-/
theorem program_reads_derivation {tokens : List Token} (h : ∃ token ∈ tokens, token.kind = .eof) :
    ∃ text, ofList? tokens = some text ∧ text.body = tokens.takeWhile (·.kind ≠ .eof) ∧
      (text.program.diagnostics = [] ↔
        Derivable (.symbol .program) (text.body.map Token.kind)) ∧
      (text.program.diagnostics = [] →
        ∃ d : Derivation (.symbol .program), d.yield = text.body ∧
          (∀ d' : Derivation (.symbol .program), d'.yield = text.body → d' = d) ∧
          text.program.statements = d.tree) := by
  obtain ⟨text, htext, hbody⟩ := exists_ofList h
  refine ⟨text, htext, hbody, ?_, ?_⟩
  · rw [diagnostics_program_eq_nil_iff, derivable_kinds_iff]
    constructor
    · intro hclean
      obtain ⟨d, -, hd⟩ := (Stmt.readDeclarations_clean_iff text.body).mp ⟨hclean, rfl⟩
      exact ⟨d, hd⟩
    · rintro ⟨d, hd⟩
      exact ((Stmt.readDeclarations_clean_iff text.body).mpr ⟨d, rfl, hd⟩).1
  · intro hclean
    rw [diagnostics_program_eq_nil_iff] at hclean
    obtain ⟨d, htree, hd⟩ := (Stmt.readDeclarations_clean_iff text.body).mp ⟨hclean, rfl⟩
    refine ⟨d, hd, ?_, htree.symm⟩
    intro d' hd'
    exact Derivation.eq_of_yield_eq (hd'.trans hd.symm)

/-- The text `a = nil;`, with a token behind its end. -/
def sampleTokens : List Token :=
  [⟨.identifier, "a", .nil, 1⟩, ⟨.equal, "=", .nil, 1⟩, ⟨.wordNil, "nil", .nil, 1⟩,
    ⟨.semicolon, ";", .nil, 1⟩, ⟨.eof, "", .nil, 1⟩, ⟨.rightBrace, "\x7d", .nil, 2⟩]

theorem program_reads_derivation_sample :
    (∃ token ∈ sampleTokens, token.kind = .eof) ∧
      Derivable (.symbol .program) [.identifier, .equal, .wordNil, .semicolon] ∧
      ∃ d : Derivation (.symbol .program), d.yield = sampleTokens.take 4 ∧
        d.tree = [.expression (.assign ⟨.identifier, "a", .nil, 1⟩ (.literal .nil))] := by
  have hend : ∃ token ∈ sampleTokens, token.kind = .eof := ⟨.ending 1, by decide, rfl⟩
  obtain ⟨text, htext, -, hderivable, hstatements⟩ := program_reads_derivation hend
  obtain rfl : text = ⟨sampleTokens.take 4, .ending 1⟩ := Option.some.inj (htext.symm.trans rfl)
  have hclean : (TokenText.mk (sampleTokens.take 4) (.ending 1)).program.diagnostics = [] := by
    cbv
  obtain ⟨d, hyield, -, htree⟩ := hstatements hclean
  refine ⟨hend, hderivable.mp hclean, d, hyield, htree.symm.trans ?_⟩
  cbv

end TokenText

end LoxLang

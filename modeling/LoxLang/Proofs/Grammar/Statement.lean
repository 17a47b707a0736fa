import LoxLang.Proofs.Grammar.Prefix

/-!
# Derivations of statements

A statement ends at a token of its own, so nothing needs to be said about what
follows it.  Again each lemma takes one rule apart.
-/

namespace LoxLang.Grammar

section

variable {token : Token} {tokens rest : List Token} {node : Stmt} {nodes : List Stmt}

theorem avoids_semicolon {semicolon : Token} (h : semicolon.kind ∈ [.semicolon]) :
    Avoids (Phrase.continuations .expression) (semicolon :: rest) := by
  rw [avoids_cons, List.mem_singleton.mp h]
  decide

theorem parses_exprStmt_iff :
    Parses .exprStmt tokens node rest ↔
      ∃ value semicolon, ParsesPhrase .expression tokens value (semicolon :: rest) ∧
        semicolon.kind = .semicolon ∧ .expression value = node := by
  constructor
  · rintro ⟨d, rfl, rfl, -⟩
    match d with
    | .node _ (.pair value (.leaf semicolon allowed)) =>
        refine ⟨value.tree, semicolon, ⟨value, rfl, ?_, avoids_semicolon allowed⟩,
          List.mem_singleton.mp allowed, rfl⟩
        simp [Derivation.yield]
  · rintro ⟨value, semicolon, ⟨d, rfl, rfl, -⟩, hkind, rfl⟩
    refine ⟨.node .exprStmt (.pair d (.leaf semicolon (List.mem_singleton.mpr hkind))), rfl, ?_,
      avoids_none⟩
    simp [Derivation.yield]

theorem parses_printStmt_iff :
    Parses .printStmt (token :: tokens) node rest ↔
      token.kind = .wordPrint ∧ ∃ value semicolon,
        ParsesPhrase .expression tokens value (semicolon :: rest) ∧
          semicolon.kind = .semicolon ∧ .print value = node := by
  constructor
  · rintro ⟨d, rfl, htokens, -⟩
    match d with
    | .node _ (.pair (.leaf word hword) (.pair value (.leaf semicolon allowed))) =>
        simp only [Derivation.yield, List.cons_append, List.nil_append, List.append_assoc,
          List.cons.injEq] at htokens
        obtain ⟨rfl, rfl⟩ := htokens
        exact ⟨List.mem_singleton.mp hword, value.tree, semicolon,
          ⟨value, rfl, rfl, avoids_semicolon allowed⟩, List.mem_singleton.mp allowed, rfl⟩
  · rintro ⟨hword, value, semicolon, ⟨d, rfl, rfl, -⟩, hkind, rfl⟩
    refine ⟨.node .printStmt (.pair (.leaf token (List.mem_singleton.mpr hword))
      (.pair d (.leaf semicolon (List.mem_singleton.mpr hkind)))), rfl, ?_, avoids_none⟩
    simp [Derivation.yield]

theorem parses_varDecl_iff :
    Parses .varDecl (token :: tokens) node rest ↔
      token.kind = .wordVar ∧ ∃ name more, tokens = name :: more ∧ name.kind = .identifier ∧
        ((∃ semicolon, more = semicolon :: rest ∧ semicolon.kind = .semicolon ∧
            .declare name none = node) ∨
          ∃ equals after initial semicolon, more = equals :: after ∧ equals.kind = .equal ∧
            ParsesPhrase .expression after initial (semicolon :: rest) ∧
              semicolon.kind = .semicolon ∧ .declare name (some initial) = node) := by
  constructor
  · rintro ⟨d, rfl, htokens, -⟩
    match d with
    | .node _ (.pair (.leaf word hword) (.pair (.leaf name hname)
          (.pair .absent (.leaf semicolon allowed)))) =>
        obtain ⟨rfl, rfl⟩ := List.cons.inj htokens
        exact ⟨List.mem_singleton.mp hword, name, _, rfl, List.mem_singleton.mp hname,
          .inl ⟨semicolon, rfl, List.mem_singleton.mp allowed, rfl⟩⟩
    | .node _ (.pair (.leaf word hword) (.pair (.leaf name hname)
          (.pair (.present (.pair (.leaf equals hequals) initial)) (.leaf semicolon allowed)))) =>
        simp only [Derivation.yield, List.cons_append, List.nil_append, List.append_assoc,
          List.cons.injEq] at htokens
        obtain ⟨rfl, rfl⟩ := htokens
        exact ⟨List.mem_singleton.mp hword, name, _, rfl, List.mem_singleton.mp hname,
          .inr ⟨equals, _, initial.tree, semicolon, rfl, List.mem_singleton.mp hequals,
            ⟨initial, rfl, rfl, avoids_semicolon allowed⟩, List.mem_singleton.mp allowed, rfl⟩⟩
  · rintro ⟨hword, name, more, rfl, hname, ⟨semicolon, rfl, hkind, rfl⟩ |
      ⟨equals, after, initial, semicolon, rfl, hequals, ⟨d, rfl, rfl, -⟩, hkind, rfl⟩⟩
    · exact ⟨.node .varDecl (.pair (.leaf token (List.mem_singleton.mpr hword))
        (.pair (.leaf name (List.mem_singleton.mpr hname))
          (.pair .absent (.leaf semicolon (List.mem_singleton.mpr hkind))))), rfl, rfl,
        avoids_none⟩
    · refine ⟨.node .varDecl (.pair (.leaf token (List.mem_singleton.mpr hword))
        (.pair (.leaf name (List.mem_singleton.mpr hname))
          (.pair (.present (.pair (.leaf equals (List.mem_singleton.mpr hequals)) d))
            (.leaf semicolon (List.mem_singleton.mpr hkind))))), rfl, ?_, avoids_none⟩
      simp [Derivation.yield]

/-! ## Blocks -/

def ParsesBody (tokens : List Token) (nodes : List Stmt) (rest : List Token) : Prop :=
  ∃ (d : Derivation (.repeated (.symbol .declaration))) (closing : Token),
    d.parts = nodes ∧ tokens = d.yield ++ closing :: rest ∧ closing.kind = .rightBrace

theorem parses_block_iff :
    Parses .block (token :: tokens) nodes rest ↔
      token.kind = .leftBrace ∧ ParsesBody tokens nodes rest := by
  constructor
  · rintro ⟨d, rfl, htokens, -⟩
    match d with
    | .node _ (.pair (.leaf opening hopening) (.pair body (.leaf closing hclosing))) =>
        simp only [Derivation.yield, List.cons_append, List.nil_append, List.append_assoc,
          List.cons.injEq] at htokens
        obtain ⟨rfl, rfl⟩ := htokens
        exact ⟨List.mem_singleton.mp hopening, body, closing, rfl, rfl,
          List.mem_singleton.mp hclosing⟩
  · rintro ⟨hopening, body, closing, rfl, rfl, hclosing⟩
    refine ⟨.node .block (.pair (.leaf token (List.mem_singleton.mpr hopening))
      (.pair body (.leaf closing (List.mem_singleton.mpr hclosing)))), rfl, ?_, avoids_none⟩
    simp [Derivation.yield]

theorem parses_declaration_iff :
    Parses .declaration tokens node rest ↔
      Parses .varDecl tokens node rest ∨ Parses .printStmt tokens node rest ∨
        (∃ body, Parses .block tokens body rest ∧ .block body = node) ∨
          Parses .exprStmt tokens node rest := by
  constructor
  · rintro ⟨d, rfl, htokens, -⟩
    match d with
    | .node _ (.left declaration) => exact .inl ⟨declaration, rfl, htokens, avoids_none⟩
    | .node _ (.right (.node _ (.left statement))) =>
        exact .inr (.inl ⟨statement, rfl, htokens, avoids_none⟩)
    | .node _ (.right (.node _ (.right (.left body)))) =>
        exact .inr (.inr (.inl ⟨body.tree, ⟨body, rfl, htokens, avoids_none⟩, rfl⟩))
    | .node _ (.right (.node _ (.right (.right statement)))) =>
        exact .inr (.inr (.inr ⟨statement, rfl, htokens, avoids_none⟩))
  · rintro (⟨d, rfl, rfl, -⟩ | ⟨d, rfl, rfl, -⟩ | ⟨_, ⟨d, rfl, rfl, -⟩, rfl⟩ | ⟨d, rfl, rfl, -⟩)
    · exact ⟨.node .declaration (.left d), rfl, rfl, avoids_none⟩
    · exact ⟨.node .declaration (.right (.node .statement (.left d))), rfl, rfl, avoids_none⟩
    · exact ⟨.node .declaration (.right (.node .statement (.right (.left d)))), rfl, rfl,
        avoids_none⟩
    · exact ⟨.node .declaration (.right (.node .statement (.right (.right d)))), rfl, rfl,
        avoids_none⟩

theorem not_parsesBody_nil : ¬ ParsesBody [] nodes rest := by
  rintro ⟨d, closing, -, htokens, -⟩
  exact absurd htokens.symm (by simp)

theorem parsesBody_closing (h : token.kind = .rightBrace) :
    ParsesBody (token :: tokens) nodes rest ↔ nodes = [] ∧ tokens = rest := by
  constructor
  · rintro ⟨d, closing, rfl, htokens, -⟩
    match d with
    | .stop =>
        obtain ⟨rfl, rfl⟩ := List.cons.inj htokens
        exact ⟨rfl, rfl⟩
    | .more head tail =>
        have hhead : Parses .declaration (token :: tokens) head.tree
            (tail.yield ++ closing :: rest) :=
          ⟨head, rfl, by rw [htokens, Derivation.yield, List.append_assoc], avoids_none⟩
        have hstarts := parses_kind rfl hhead
        rw [h] at hstarts
        exact absurd hstarts (by decide)
  · rintro ⟨rfl, rfl⟩
    exact ⟨.stop, token, rfl, rfl, h⟩

theorem parsesBody_declaration (h : token.kind ≠ .rightBrace) :
    ParsesBody (token :: tokens) nodes rest ↔
      ∃ first middle others, Parses .declaration (token :: tokens) first middle ∧
        ParsesBody middle others rest ∧ first :: others = nodes := by
  constructor
  · rintro ⟨d, closing, rfl, htokens, hclosing⟩
    match d with
    | .stop =>
        obtain ⟨rfl, -⟩ := List.cons.inj htokens
        exact absurd hclosing h
    | .more head tail =>
        exact ⟨head.tree, tail.yield ++ closing :: rest, tail.parts,
          ⟨head, rfl, by rw [htokens, Derivation.yield, List.append_assoc], avoids_none⟩,
          ⟨tail, closing, rfl, rfl, hclosing⟩, rfl⟩
  · rintro ⟨_, _, _, ⟨head, rfl, htokens, -⟩, ⟨tail, closing, rfl, rfl, hclosing⟩, rfl⟩
    exact ⟨.more head tail, closing, rfl, by
      rw [htokens, Derivation.yield, List.append_assoc], hclosing⟩

/-! ## Whole programs -/

theorem derives_program_nil :
    (∃ d : Derivation (.symbol .program), d.tree = nodes ∧ d.yield = []) ↔ nodes = [] := by
  constructor
  · rintro ⟨d, rfl, hyield⟩
    match d with
    | .node _ .stop => rfl
    | .node _ (.more head tail) =>
        exact absurd (List.append_eq_nil_iff.mp hyield).1 (head.yield_ne_nil rfl)
  · rintro rfl
    exact ⟨.node .program .stop, rfl, rfl⟩

theorem derives_program_cons :
    (∃ d : Derivation (.symbol .program), d.tree = nodes ∧ d.yield = token :: tokens) ↔
      ∃ first middle others, Parses .declaration (token :: tokens) first middle ∧
        (∃ d : Derivation (.symbol .program), d.tree = others ∧ d.yield = middle) ∧
          first :: others = nodes := by
  constructor
  · rintro ⟨d, rfl, hyield⟩
    match d with
    | .node _ .stop => cases hyield
    | .node _ (.more head tail) =>
        exact ⟨head.tree, tail.yield, tail.parts, ⟨head, rfl, hyield.symm, avoids_none⟩,
          ⟨.node .program tail, rfl, rfl⟩, rfl⟩
  · rintro ⟨_, _, _, ⟨head, rfl, htokens, -⟩, ⟨d, rfl, rfl⟩, rfl⟩
    match d with
    | .node _ tail => exact ⟨.node .program (.more head tail), rfl, htokens.symm⟩

end

end LoxLang.Grammar

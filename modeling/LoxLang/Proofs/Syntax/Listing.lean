import LoxLang.Syntax.Listing
import LoxLang.Proofs.Lexing.Decomposition
import LoxLang.Proofs.Lockstep.Expressions
import LoxLang.Proofs.Number.Texts
import LoxLang.Proofs.Outcome.NoFaults
import LoxLang.Proofs.Syntax.Nest
import LoxLang.Proofs.Syntax.Programs

/-!
# Listings tell trees apart

A listing is a nested text, which can be taken apart in one way only.  The parts are names,
operators and literals, which the scanner spells differently, so expressions with the same
listing are the same but for lines.
-/

namespace LoxLang

open Lexing

/-! ## Listings as nested texts -/

def Expr.nest : Expr → Nest
  | assign name value => .node ['='] [.word name.lexeme.toList, value.nest]
  | binary left operator right => .node operator.lexeme.toList [left.nest, right.nest]
  | grouping inner => .node ['g', 'r', 'o', 'u', 'p'] [inner.nest]
  | literal value => .word value.text.toList
  | unary operator right => .node operator.lexeme.toList [right.nest]
  | reference name => .word name.lexeme.toList
  | stray _ => .word []

theorem bind_eq_ok {α β ε : Type} {first : Except ε α} {next : α → Except ε β} {b : β} :
    (first >>= next) = .ok b ↔ ∃ a, first = .ok a ∧ next a = .ok b := by
  cases first <;> simp [bind, Except.bind]

theorem Expr.listing_eq {expr : Expr} {text : String} (h : expr.listing = .ok text) :
    text.toList = expr.nest.text := by
  induction expr generalizing text with
  | literal value =>
      cases h
      rfl
  | reference name =>
      cases h
      rfl
  | stray kind => cases h
  | grouping inner ih =>
      rw [listing, bind_eq_ok] at h
      obtain ⟨part, hinner, hpart⟩ := h
      cases hpart
      simp [parenthesize, nest, Nest.text, Nest.ending, ← ih hinner]
  | unary operator right ih =>
      rw [listing, bind_eq_ok] at h
      obtain ⟨part, hright, hpart⟩ := h
      cases hpart
      simp [parenthesize, nest, Nest.text, Nest.ending, ← ih hright]
  | assign name value ih =>
      rw [listing, bind_eq_ok] at h
      obtain ⟨part, hvalue, hpart⟩ := h
      cases hpart
      simp [parenthesize, nest, Nest.text, Nest.ending, ← ih hvalue]
  | binary left operator right ihLeft ihRight =>
      simp only [listing, bind_eq_ok] at h
      obtain ⟨part, hleft, part', hright, hparts⟩ := h
      cases hparts
      simp [parenthesize, nest, Nest.text, Nest.ending, ← ihLeft hleft, ← ihRight hright]

/-! ## Tokens as the scanner spells them -/

/-- Some source has the token, perhaps on another line. -/
def Token.Scanned (token : Token) : Prop :=
  ∃ source, ∃ other ∈ (scan source).text.body, other.SameButLine token

theorem Lexing.Decomposes.matches_of_mem {text : List Char} {lexeme : Lexeme}
    {lexemes : List Lexeme} {kind : TokenKind} {literal : Value} (h : Decomposes text lexemes)
    (hmem : lexeme ∈ lexemes) (hform : lexeme.form = .token kind literal) :
    Matches lexeme.text (.token kind literal) := by
  induction h with
  | nil => cases hmem
  | cons hfirst _ ih =>
      cases hmem with
      | tail _ hmem => exact ih hmem
      | head =>
          cases hfirst with
          | longest _ hmatches _ => exact hform ▸ hmatches
          | unexpected => cases hform
          | unterminated => cases hform

theorem Token.Scanned.matches {token : Token} (h : token.Scanned) :
    Matches token.lexeme.toList (.token token.kind token.literal) := by
  obtain ⟨source, other, hmem, hsame⟩ := h
  obtain ⟨⟨lexeme, line⟩, hlexeme, htoken⟩ := List.mem_filterMap.mp hmem
  rw [← located_eq_withLines] at hlexeme
  obtain ⟨text, form⟩ := lexeme
  cases form with
  | token kind literal =>
      obtain rfl := Option.some.inj htoken
      rw [hsame.kind, hsame.lexeme, hsame.literal, String.toList_ofList]
      exact (decomposes_iff.mpr rfl).matches_of_mem (of_mem_located hlexeme) rfl
  | _ => cases htoken

structure Token.IsName (token : Token) : Prop where
  kind : token.kind = .identifier
  literal : token.literal = .nil
  word : Word token.lexeme.toList
  free : ∀ kind, (token.lexeme, kind) ∉ reserved

structure Token.IsOperator (kinds : List TokenKind) (token : Token) : Prop where
  among : token.kind ∈ kinds
  literal : token.literal = .nil
  symbol : (token.lexeme.toList, token.kind) ∈ symbols

theorem Lexing.Matches.name {text : List Char} {literal : Value}
    (h : Matches text (.token .identifier literal)) :
    literal = .nil ∧ Word text ∧ ∀ kind, (String.ofList text, kind) ∉ reserved := by
  cases h with
  | symbol hmem => simp [symbols] at hmem
  | keyword _ hmem => simp [reserved] at hmem
  | identifier hword hfree => exact ⟨rfl, hword, hfree⟩

theorem Lexing.Matches.operator {text : List Char} {kind : TokenKind} {literal : Value}
    (h : Matches text (.token kind literal)) (hkind : kind ∈ unaryOperators ++ binaryOperators) :
    literal = .nil ∧ (text, kind) ∈ symbols := by
  cases h with
  | symbol hmem => exact ⟨rfl, hmem⟩
  | keyword _ hmem =>
      have hreserved : ∀ entry ∈ reserved, entry.2 ∉ unaryOperators ++ binaryOperators := by decide
      exact absurd hkind (hreserved _ hmem)
  | _ => simp [unaryOperators, binaryOperators] at hkind

theorem Token.Scanned.isName {token : Token} (h : token.Scanned)
    (hkind : token.kind = .identifier) : token.IsName := by
  have hmatches := h.matches
  rw [hkind] at hmatches
  obtain ⟨hliteral, hword, hfree⟩ := hmatches.name
  rw [String.ofList_toList] at hfree
  exact ⟨hkind, hliteral, hword, hfree⟩

theorem Token.Scanned.isOperator {token : Token} {kinds : List TokenKind} (h : token.Scanned)
    (hkind : token.kind ∈ kinds) (hkinds : kinds ⊆ unaryOperators ++ binaryOperators) :
    token.IsOperator kinds := by
  obtain ⟨hliteral, hsymbol⟩ := h.matches.operator (hkinds hkind)
  exact ⟨hkind, hliteral, hsymbol⟩

/-! ## Trees of scanned tokens -/

/-- The value is no string, and finite if it is a number. -/
def Value.Plain : Value → Prop
  | nil => True
  | boolean _ => True
  | number x => Magnitude.ofFloat x < Magnitude.infinity
  | string _ => False

def Expr.Literals (p : Value → Prop) : Expr → Prop
  | assign _ value => value.Literals p
  | binary left _ right => left.Literals p ∧ right.Literals p
  | grouping inner => inner.Literals p
  | literal value => p value
  | unary _ right => right.Literals p
  | reference _ => True
  | stray _ => True

def Token.Kept (p : Token → Prop) (token token' : Token) : Prop :=
  token' = token ∧ p token

/-- Names, operators and literals are spelled as the scanner has them. -/
def Expr.Spelled : Expr → Prop
  | assign name value => name.IsName ∧ value.Spelled
  | binary left operator right =>
      left.Spelled ∧ operator.IsOperator binaryOperators ∧ right.Spelled
  | grouping inner => inner.Spelled
  | literal value => value.Plain
  | unary operator right => operator.IsOperator unaryOperators ∧ right.Spelled
  | reference name => name.IsName
  | stray _ => False

theorem Expr.Spelled.of_scanned {expr : Expr} (hwell : expr.WellFormed)
    (hplain : expr.Literals Value.Plain)
    (htokens : Expr.Alike (Token.Kept Token.Scanned) expr expr) : expr.Spelled := by
  induction expr with
  | assign name value ih =>
      cases htokens with
      | assign hname hvalue => exact ⟨hname.2.isName hwell.1, ih hwell.2 hplain hvalue⟩
  | binary left operator right ihLeft ihRight =>
      cases htokens with
      | binary hleft hoperator hright =>
          exact ⟨ihLeft hwell.1 hplain.1 hleft, hoperator.2.isOperator hwell.2.1 (by simp),
            ihRight hwell.2.2 hplain.2 hright⟩
  | grouping inner ih =>
      cases htokens with
      | grouping hinner => exact ih hwell hplain hinner
  | literal value => exact hplain
  | unary operator right ih =>
      cases htokens with
      | unary hoperator hright =>
          exact ⟨hoperator.2.isOperator hwell.1 (by simp), ih hwell.2 hplain hright⟩
  | reference name =>
      cases htokens with
      | reference hname => exact hname.2.isName hwell
  | stray kind => exact hwell

/-! ## Spellings -/

theorem symbol_spelling : ∀ entry ∈ symbols, entry.2 ∈ unaryOperators ++ binaryOperators →
    entry.1 ≠ ['='] ∧ entry.1 ≠ ['g', 'r', 'o', 'u', 'p'] ∧ Nest.Unbroken entry.1 := by
  simp [symbols, unaryOperators, binaryOperators, Nest.Unbroken]

theorem symbol_kind_unique : ∀ entry ∈ symbols, ∀ entry' ∈ symbols,
    entry.1 = entry'.1 → entry.2 = entry'.2 := by
  decide

namespace Token

variable {token token' : Token} {kinds kinds' : List TokenKind}

theorem IsOperator.same (h : token.IsOperator kinds) (h' : token'.IsOperator kinds')
    (hlexeme : token.lexeme.toList = token'.lexeme.toList) : token.SameButLine token' where
  kind := (symbol_kind_unique _ h.symbol _ h'.symbol hlexeme).symm
  lexeme := (String.toList_inj.mp hlexeme).symm
  literal := by rw [h.literal, h'.literal]

theorem IsName.same (h : token.IsName) (h' : token'.IsName)
    (hlexeme : token.lexeme = token'.lexeme) : token.SameButLine token' where
  kind := by rw [h.kind, h'.kind]
  lexeme := hlexeme.symm
  literal := by rw [h.literal, h'.literal]

theorem IsName.unbroken (h : token.IsName) : Nest.Unbroken token.lexeme.toList := by
  have hspecial : ∀ c ∈ [' ', '(', ')'], ¬(Letter c ∨ Digit c) := by
    simp [Letter, Digit]
  have hword := h.word
  generalize token.lexeme.toList = text at hword
  cases hword with
  | intro hletter hparts =>
      refine Nest.unbroken_cons.mpr ⟨fun hc => hspecial _ hc (.inl hletter), fun c hmem hc => ?_⟩
      exact hspecial c hc (hparts c hmem)

theorem IsName.exists_letter (h : token.IsName) :
    ∃ c rest, token.lexeme.toList = c :: rest ∧ Letter c := by
  have hword := h.word
  generalize token.lexeme.toList = text at hword
  cases hword with
  | intro hletter _ => exact ⟨_, _, rfl, hletter⟩

end Token

theorem Nest.unbroken_of_numeric {text : List Char} (h : ∀ c ∈ text, Decimal.IsNumeric c) :
    Unbroken text := by
  have hspecial : ∀ c ∈ [' ', '(', ')'], ¬Decimal.IsNumeric c := by
    simp [Decimal.IsNumeric]
  exact fun c hmem hc => hspecial c hc (h c hmem)

namespace Value

variable {value value' : Value}

theorem Plain.unbroken (h : value.Plain) : Nest.Unbroken value.text.toList := by
  cases value with
  | nil => simp [text, Nest.Unbroken]
  | boolean b => cases b <;> simp [text, Nest.Unbroken]
  | number x =>
      rw [text, String.toList_ofList]
      exact Nest.unbroken_of_numeric (Number.format_numeric h).1
  | string s => exact h.elim

theorem Plain.exists_head (h : value.Plain) :
    ∃ c rest, value.text.toList = c :: rest ∧
      (value.isNumber = true ↔ c.isDigit = true ∨ c = '-') := by
  cases value with
  | nil => exact ⟨'n', ['i', 'l'], by simp [text], by decide⟩
  | boolean b =>
      cases b
      · exact ⟨'f', ['a', 'l', 's', 'e'], by simp [text], by decide⟩
      · exact ⟨'t', ['r', 'u', 'e'], by simp [text], by decide⟩
  | number x =>
      obtain ⟨-, c, rest, htext, hhead⟩ := Number.format_numeric h
      exact ⟨c, rest, by rw [text, String.toList_ofList, htext], by simp [isNumber, hhead]⟩
  | string s => exact h.elim

theorem Plain.isNumber_eq (h : value.Plain) (h' : value'.Plain)
    (htext : value.text = value'.text) : value.isNumber = value'.isNumber := by
  obtain ⟨c, rest, hhead, hnumber⟩ := h.exists_head
  obtain ⟨c', rest', hhead', hnumber'⟩ := h'.exists_head
  rw [htext, hhead'] at hhead
  obtain ⟨rfl, -⟩ := List.cons.inj hhead
  rw [Bool.eq_iff_iff, hnumber, hnumber']

theorem Plain.mem_words (h : value.Plain) (hnumber : value.isNumber = false) :
    value ∈ [nil, boolean false, boolean true] := by
  cases value with
  | nil => simp
  | boolean b => cases b <;> simp
  | number x => cases hnumber
  | string s => exact h.elim

theorem words_injective : ∀ word ∈ [nil, boolean false, boolean true],
    ∀ word' ∈ [nil, boolean false, boolean true], word.text = word'.text → word = word' := by
  simp [text]

theorem Plain.eq (h : value.Plain) (h' : value'.Plain) (htext : value.text = value'.text) :
    value = value' := by
  have hnumber := h.isNumber_eq h' htext
  cases hword : value.isNumber with
  | false =>
      rw [hword] at hnumber
      exact words_injective _ (h.mem_words hword) _ (h'.mem_words hnumber.symm) htext
  | true =>
      rw [hword] at hnumber
      cases value with
      | number x =>
          cases value' with
          | number y => rw [Number.format_injective h h' (String.ofList_inj.mp htext)]
          | _ => cases hnumber
      | _ => cases hword

theorem Plain.text_ne_name (h : value.Plain) {name : Token} (hname : name.IsName) :
    value.text ≠ name.lexeme := by
  intro htext
  have hfree := hname.free
  rw [← htext] at hfree
  cases value with
  | nil => exact hfree .wordNil (by simp [text, reserved])
  | boolean b =>
      cases b
      · exact hfree .wordFalse (by simp [text, reserved])
      · exact hfree .wordTrue (by simp [text, reserved])
  | number x =>
      obtain ⟨c, rest, hhead, hnumber⟩ := h.exists_head
      obtain ⟨c', rest', hhead', hletter⟩ := hname.exists_letter
      rw [htext, hhead'] at hhead
      obtain ⟨rfl, -⟩ := List.cons.inj hhead
      rcases hnumber.mp rfl with hdigit | rfl
      · exact hletter.not_digit (isDigit_iff.mp hdigit)
      · simp [Letter] at hletter
  | string s => exact h

end Value

namespace Token.IsOperator

variable {token : Token} {kinds : List TokenKind}

theorem spelling (h : token.IsOperator kinds) (hkinds : kinds ⊆ unaryOperators ++ binaryOperators) :
    token.lexeme.toList ≠ ['='] ∧ token.lexeme.toList ≠ ['g', 'r', 'o', 'u', 'p'] ∧
      Nest.Unbroken token.lexeme.toList :=
  symbol_spelling _ h.symbol (hkinds h.among)

theorem unbroken (h : token.IsOperator kinds) (hkinds : kinds ⊆ unaryOperators ++ binaryOperators) :
    Nest.Unbroken token.lexeme.toList :=
  (h.spelling hkinds).2.2

end Token.IsOperator

theorem Expr.Spelled.nest {expr : Expr} (h : expr.Spelled) : expr.nest.Spelled := by
  induction expr with
  | assign name value ih =>
      have hequals : Nest.Unbroken ['='] := by simp [Nest.Unbroken]
      exact ⟨hequals, h.1.unbroken, ih h.2, trivial⟩
  | binary left operator right ihLeft ihRight =>
      exact ⟨h.2.1.unbroken (by simp), ihLeft h.1, ihRight h.2.2, trivial⟩
  | grouping inner ih =>
      have hgroup : Nest.Unbroken ['g', 'r', 'o', 'u', 'p'] := by simp [Nest.Unbroken]
      exact ⟨hgroup, ih h, trivial⟩
  | literal value => exact Value.Plain.unbroken h
  | unary operator right ih => exact ⟨h.1.unbroken (by simp), ih h.2, trivial⟩
  | reference name => exact Token.IsName.unbroken h
  | stray kind => exact h.elim

theorem Expr.Spelled.alike {expr expr' : Expr} (h : expr.Spelled) (h' : expr'.Spelled)
    (hnest : expr.nest = expr'.nest) : Expr.Alike Token.SameButLine expr expr' := by
  induction expr generalizing expr' with
  | assign name value ih =>
      cases expr' <;> simp only [Expr.nest, Nest.node.injEq, Nest.word.injEq, List.cons.injEq,
        reduceCtorEq, and_true, and_false] at hnest
      case assign name' value' =>
          exact .assign (h.1.same h'.1 (String.toList_inj.mp hnest.2.1)) (ih h.2 h'.2 hnest.2.2)
      case binary left' operator' right' =>
          exact absurd hnest.1.symm (h'.2.1.spelling (by simp)).1
  | binary left operator right ihLeft ihRight =>
      cases expr' <;> simp only [Expr.nest, Nest.node.injEq, List.cons.injEq, reduceCtorEq,
        and_true, and_false] at hnest
      case assign name' value' => exact absurd hnest.1 (h.2.1.spelling (by simp)).1
      case binary left' operator' right' =>
          exact .binary (ihLeft h.1 h'.1 hnest.2.1) (h.2.1.same h'.2.1 hnest.1)
            (ihRight h.2.2 h'.2.2 hnest.2.2)
  | grouping inner ih =>
      cases expr' <;> simp only [Expr.nest, Nest.node.injEq, List.cons.injEq, reduceCtorEq,
        and_true, and_false, true_and] at hnest
      case grouping inner' => exact .grouping (ih h h' hnest)
      case unary operator' right' => exact absurd hnest.1.symm (h'.1.spelling (by simp)).2.1
  | literal value =>
      cases expr' <;> simp only [Expr.nest, Nest.word.injEq, String.toList_inj, reduceCtorEq]
        at hnest
      case literal value' =>
          obtain rfl := Value.Plain.eq h h' hnest
          exact .literal
      case reference name' => exact absurd hnest (Value.Plain.text_ne_name h h')
      case stray kind' => exact h'.elim
  | unary operator right ih =>
      cases expr' <;> simp only [Expr.nest, Nest.node.injEq, List.cons.injEq, reduceCtorEq,
        and_true, and_false] at hnest
      case grouping inner' => exact absurd hnest.1 (h.1.spelling (by simp)).2.1
      case unary operator' right' => exact .unary (h.1.same h'.1 hnest.1) (ih h.2 h'.2 hnest.2)
  | reference name =>
      cases expr' <;> simp only [Expr.nest, Nest.word.injEq, String.toList_inj, reduceCtorEq]
        at hnest
      case literal value' => exact absurd hnest.symm (Value.Plain.text_ne_name h' h)
      case reference name' => exact .reference (Token.IsName.same h h' hnest)
      case stray kind' => exact h'.elim
  | stray kind => exact h.elim

/-! ## Reading -/

/-- A text goes along with itself, and every token that is read has the property of all. -/
theorem lockstep_kept (p : Token → Prop) :
    Lockstep (Token.Kept p) (fun tokens tokens' => tokens' = tokens ∧ ∀ token ∈ tokens, p token)
      (fun tokens tokens' => tokens' = tokens ∧ ∀ token ∈ tokens, p token) where
  same := by
    rintro token token' ⟨hsame, -⟩
    exact .of_eq hsame.symm
  heads := by
    rintro tokens tokens' ⟨hsame, hall⟩
    subst hsame
    cases tokens' with
    | nil => exact .nil
    | cons token rest => exact .cons ⟨rfl, hall token (by simp)⟩
  tail := by
    rintro token token' rest rest' ⟨hsame, hall⟩ -
    exact ⟨(List.cons.inj hsame).2, fun other hmem => hall other (by simp [hmem])⟩
  behind := by
    rintro token token' rest rest' ⟨hsame, hall⟩ -
    exact ⟨(List.cons.inj hsame).2, fun other hmem => hall other (by simp [hmem])⟩

theorem Expr.read_kept {p : Token → Prop} {tokens : List Token} (h : ∀ token ∈ tokens, p token)
    {node : Expr} (hnode : (Expr.read tokens).value? = some node) :
    Expr.Alike (Token.Kept p) node node := by
  have halike := Expr.read_alike (lockstep_kept p) ⟨rfl, h⟩
  cases hreply : Expr.read tokens with
  | accepted value rest errors shorter =>
      rw [hreply] at halike hnode
      obtain rfl := Option.some.inj hnode
      exact halike.1
  | refused rest errors notLonger =>
      rw [hreply] at hnode
      cases hnode

theorem LeadingExpr.exists_text {tokens : List Token} {leading : LeadingExpr}
    (h : LeadingExpr.ofTokens? tokens = some leading) :
    ∃ text : TokenText, leading = .ofText text ∧
      ∀ token ∈ text.body, token ∈ tokens ∧ token.kind ≠ .eof := by
  unfold ofTokens? at h
  cases htext : TokenText.ofList? tokens with
  | some text =>
      rw [htext] at h
      obtain ⟨hbody, -, behind, htokens⟩ := TokenText.exists_behind htext
      refine ⟨text, (Option.some.inj h).symm, fun token hmem => ⟨by simp [htokens, hmem], ?_⟩⟩
      rw [hbody] at hmem
      simpa using List.mem_takeWhile_imp hmem
  | none =>
      simp only [htext] at h
      have hnone : ∀ token ∈ tokens, token.kind ≠ .eof := by
        intro token hmem hkind
        obtain ⟨text, hsome, -⟩ := TokenText.exists_ofList ⟨token, hmem, hkind⟩
        rw [htext] at hsome
        cases hsome
      split at h <;> cases h
      exact ⟨_, rfl, fun token hmem => ⟨hmem, hnone token hmem⟩⟩

theorem LeadingExpr.spelled {tokens : List Token} {leading : LeadingExpr} {node : Expr}
    (htokens : ∀ token ∈ tokens, token.kind = .eof ∨ token.Scanned)
    (hleading : LeadingExpr.ofTokens? tokens = some leading) (hnode : leading.node = some node)
    (hplain : node.Literals Value.Plain) : node.Spelled := by
  obtain ⟨text, rfl, hbody⟩ := LeadingExpr.exists_text hleading
  refine .of_scanned (LeadingExpr.ofText_wellFormed hnode) hplain (Expr.read_kept ?_ hnode)
  intro token hmem
  obtain ⟨hmem, hkind⟩ := hbody token hmem
  exact (htokens token hmem).resolve_left hkind

theorem Scan.scanned (source : String) :
    ∀ token ∈ (scan source).text.toList, token.kind = .eof ∨ token.Scanned := by
  intro token hmem
  rcases List.mem_append.mp hmem with hbody | hending
  · exact .inr ⟨source, token, hbody, .refl token⟩
  · rw [List.mem_singleton] at hending
    exact .inl (by rw [hending]; rfl)

/--
Two expressions that are read from tokens of the scanner, without strings and with finite
numbers only, are the same but for the lines of their tokens when they have the same listing.
-/
theorem listing_identifies_tree {tokens tokens' : List Token} {leading leading' : LeadingExpr}
    {expr expr' : Expr} (htokens : ∀ token ∈ tokens, token.kind = .eof ∨ token.Scanned)
    (htokens' : ∀ token ∈ tokens', token.kind = .eof ∨ token.Scanned)
    (hleading : LeadingExpr.ofTokens? tokens = some leading)
    (hleading' : LeadingExpr.ofTokens? tokens' = some leading')
    (hexpr : leading.node = some expr) (hexpr' : leading'.node = some expr')
    (hplain : expr.Literals Value.Plain) (hplain' : expr'.Literals Value.Plain)
    (hlisting : expr.listing = expr'.listing) : Expr.Alike Token.SameButLine expr expr' := by
  have hspelled := LeadingExpr.spelled htokens hleading hexpr hplain
  have hspelled' := LeadingExpr.spelled htokens' hleading' hexpr' hplain'
  obtain ⟨text, htext⟩ := (LeadingExpr.ofTokens_wellFormed hleading hexpr).proper.listing
  have hsame : expr.nest.text ++ [] = expr'.nest.text ++ [] := by
    rw [← Expr.listing_eq htext, ← Expr.listing_eq (hlisting ▸ htext)]
  have hend : Nest.Breaks [] := by simp [Nest.Breaks]
  obtain ⟨hnest, -⟩ := Nest.text_unique hspelled.nest hspelled'.nest hend hend hsame
  exact hspelled.alike hspelled' hnest

/-- The tree of a source on one line or on two, when its second operator is on the given line. -/
def comparedOn (line : Int) : Expr :=
  .binary (.unary (.bare .minus "-" 1) (.reference (.bare .identifier "a" 1)))
    (.bare .equalEqual "==" line) (.grouping (.reference (.bare .identifier "group" line)))

theorem listing_identifies_tree_layout :
    (∃ leading leading', LeadingExpr.ofTokens? (scan "-a==(group)").text.toList = some leading ∧
      LeadingExpr.ofTokens? (scan "- a\n==(group)").text.toList = some leading' ∧
      leading.node = some (comparedOn 1) ∧ leading'.node = some (comparedOn 2)) ∧
    (comparedOn 1).listing = .ok "(== (- a) (group group))" ∧
    Expr.Alike Token.SameButLine (comparedOn 1) (comparedOn 2) := by
  have hone : LeadingExpr.ofTokens? (scan "-a==(group)").text.toList =
      some ⟨some (comparedOn 1), 6, []⟩ := by
    cbv
  have htwo : LeadingExpr.ofTokens? (scan "- a\n==(group)").text.toList =
      some ⟨some (comparedOn 2), 6, []⟩ := by
    cbv
  have hlisting (line : Int) : (comparedOn line).listing = .ok "(== (- a) (group group))" := by
    cbv
  have hplain (line : Int) : (comparedOn line).Literals Value.Plain := by
    simp [comparedOn, Expr.Literals]
  refine ⟨⟨_, _, hone, htwo, rfl, rfl⟩, hlisting 1, ?_⟩
  exact listing_identifies_tree (Scan.scanned _) (Scan.scanned _) hone htwo rfl rfl (hplain 1)
    (hplain 2) (by rw [hlisting, hlisting])

end LoxLang

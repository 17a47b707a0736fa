import LoxLang.Syntax.Tree

/-!
# The grammar of programs and its derivations

The rules are data: each symbol has a form, built from tokens and symbols by
sequence, choice, option and repetition.  A derivation is a tree over a form; its
yield is the tokens at its leaves, and its meaning is computed bottom up, one
action for each symbol.  Nothing here refers to how texts are read.
-/

namespace LoxLang.Grammar

inductive Phrase where
  | expression | assignment | equality | comparison | term | factor | unary | primary
  deriving DecidableEq, Repr

inductive Symbol where
  | program | declaration | varDecl | statement | printStmt | block | exprStmt
  | phrase (name : Phrase)
  deriving DecidableEq, Repr

inductive Form where
  | oneOf (kinds : List TokenKind)
  | symbol (name : Symbol)
  | sequence (first second : Form)
  | choice (first second : Form)
  | optional (item : Form)
  | repeated (item : Form)
  deriving DecidableEq, Repr

abbrev token (kind : TokenKind) : Form := .oneOf [kind]

abbrev phrase (name : Phrase) : Form := .symbol (.phrase name)

def link (operand : Phrase) (operators : List TokenKind) : Form :=
  .sequence (.oneOf operators) (phrase operand)

def chain (operand : Phrase) (operators : List TokenKind) : Form :=
  .sequence (phrase operand) (.repeated (link operand operators))

def parenthesized : Form :=
  .sequence (token .leftParen) (.sequence (phrase .expression) (token .rightParen))

/-- The right side of each rule.  A program is what stands before the end token. -/
def rule : Symbol → Form
  | .program => .repeated (.symbol .declaration)
  | .declaration => .choice (.symbol .varDecl) (.symbol .statement)
  | .varDecl =>
      .sequence (token .wordVar) <| .sequence (token .identifier) <|
        .sequence (.optional (.sequence (token .equal) (phrase .expression))) (token .semicolon)
  | .statement => .choice (.symbol .printStmt) (.choice (.symbol .block) (.symbol .exprStmt))
  | .printStmt => .sequence (token .wordPrint) (.sequence (phrase .expression) (token .semicolon))
  | .block =>
      .sequence (token .leftBrace)
        (.sequence (.repeated (.symbol .declaration)) (token .rightBrace))
  | .exprStmt => .sequence (phrase .expression) (token .semicolon)
  | .phrase .expression => phrase .assignment
  | .phrase .assignment =>
      .choice (.sequence (token .identifier) (.sequence (token .equal) (phrase .assignment)))
        (phrase .equality)
  | .phrase .equality => chain .comparison [.bangEqual, .equalEqual]
  | .phrase .comparison => chain .term [.greater, .greaterEqual, .less, .lessEqual]
  | .phrase .term => chain .factor [.minus, .plus]
  | .phrase .factor => chain .unary [.slash, .star]
  | .phrase .unary =>
      .choice (.sequence (.oneOf [.bang, .minus]) (phrase .unary)) (phrase .primary)
  | .phrase .primary =>
      .choice (.oneOf [.number, .string, .wordTrue, .wordFalse, .wordNil])
        (.choice parenthesized (token .identifier))

inductive Derivation : Form → Type
  | leaf {kinds : List TokenKind} (token : Token) (allowed : token.kind ∈ kinds) :
      Derivation (.oneOf kinds)
  | node (name : Symbol) (body : Derivation (rule name)) : Derivation (.symbol name)
  | pair {first second : Form} (before : Derivation first) (after : Derivation second) :
      Derivation (.sequence first second)
  | left {first second : Form} (chosen : Derivation first) : Derivation (.choice first second)
  | right {first second : Form} (chosen : Derivation second) : Derivation (.choice first second)
  | absent {item : Form} : Derivation (.optional item)
  | present {item : Form} (found : Derivation item) : Derivation (.optional item)
  | stop {item : Form} : Derivation (.repeated item)
  | more {item : Form} (head : Derivation item) (tail : Derivation (.repeated item)) :
      Derivation (.repeated item)

namespace Derivation

def yield : {form : Form} → Derivation form → List Token
  | _, leaf token _ => [token]
  | _, node _ body => body.yield
  | _, pair before after => before.yield ++ after.yield
  | _, left chosen => chosen.yield
  | _, right chosen => chosen.yield
  | _, absent => []
  | _, present found => found.yield
  | _, stop => []
  | _, more head tail => head.yield ++ tail.yield

end Derivation

/-! ## Derivability depends on the kinds of the tokens alone -/

def Derivable (form : Form) (kinds : List TokenKind) : Prop :=
  ∃ d : Derivation form, d.yield.map Token.kind = kinds

theorem Derivation.relabel {form : Form} (d : Derivation form) (tokens : List Token)
    (same : tokens.map Token.kind = d.yield.map Token.kind) :
    ∃ d' : Derivation form, d'.yield = tokens := by
  induction d generalizing tokens with
  | leaf token allowed =>
      obtain ⟨other, rfl, hkind⟩ := List.map_eq_singleton_iff.mp same
      exact ⟨.leaf other (hkind ▸ allowed), rfl⟩
  | node name body ih =>
      obtain ⟨body', rfl⟩ := ih tokens same
      exact ⟨.node name body', rfl⟩
  | pair before after ihBefore ihAfter =>
      simp only [yield, List.map_append] at same
      obtain ⟨front, back, rfl, hfront, hback⟩ := List.map_eq_append_iff.mp same
      obtain ⟨before', rfl⟩ := ihBefore front hfront
      obtain ⟨after', rfl⟩ := ihAfter back hback
      exact ⟨.pair before' after', rfl⟩
  | left chosen ih =>
      obtain ⟨chosen', rfl⟩ := ih tokens same
      exact ⟨.left chosen', rfl⟩
  | right chosen ih =>
      obtain ⟨chosen', rfl⟩ := ih tokens same
      exact ⟨.right chosen', rfl⟩
  | absent => exact ⟨.absent, (List.map_eq_nil_iff.mp same).symm⟩
  | present found ih =>
      obtain ⟨found', rfl⟩ := ih tokens same
      exact ⟨.present found', rfl⟩
  | stop => exact ⟨.stop, (List.map_eq_nil_iff.mp same).symm⟩
  | more head tail ihHead ihTail =>
      simp only [yield, List.map_append] at same
      obtain ⟨front, back, rfl, hfront, hback⟩ := List.map_eq_append_iff.mp same
      obtain ⟨head', rfl⟩ := ihHead front hfront
      obtain ⟨tail', rfl⟩ := ihTail back hback
      exact ⟨.more head' tail', rfl⟩

theorem derivable_kinds_iff {form : Form} {tokens : List Token} :
    Derivable form (tokens.map Token.kind) ↔ ∃ d : Derivation form, d.yield = tokens := by
  constructor
  · rintro ⟨d, hd⟩
    exact d.relabel tokens hd.symm
  · rintro ⟨d, rfl⟩
    exact ⟨d, rfl⟩

/-! ## The tree of a derivation -/

def Symbol.Node : Symbol → Type
  | .program | .block => List Stmt
  | .declaration | .varDecl | .statement | .printStmt | .exprStmt => Stmt
  | .phrase _ => Expr

/-- What a derivation is made of: a node for each symbol, a token for each leaf. -/
def Form.Parts : Form → Type
  | .oneOf _ => Token
  | .symbol name => name.Node
  | .sequence first second => first.Parts × second.Parts
  | .choice first second => first.Parts ⊕ second.Parts
  | .optional item => Option item.Parts
  | .repeated item => List item.Parts

def joinLeft (first : Expr) (links : List (Token × Expr)) : Expr :=
  links.foldl (fun left (operator, right) => .binary left operator right) first

def literal (token : Token) : Expr :=
  match token.kind with
  | .wordTrue => .literal (.boolean true)
  | .wordFalse => .literal (.boolean false)
  | .wordNil => .literal .nil
  | _ => .literal token.literal

def build : (name : Symbol) → (rule name).Parts → name.Node
  | .program, declarations => declarations
  | .declaration, .inl node => node
  | .declaration, .inr node => node
  | .varDecl, (_, name, initial, _) => Stmt.declare name (initial.map Prod.snd)
  | .statement, .inl node => node
  | .statement, .inr (.inl body) => Stmt.block body
  | .statement, .inr (.inr node) => node
  | .printStmt, (_, value, _) => Stmt.print value
  | .block, (_, declarations, _) => declarations
  | .exprStmt, (value, _) => Stmt.expression value
  | .phrase .expression, node => node
  | .phrase .assignment, .inl (name, _, value) => Expr.assign name value
  | .phrase .assignment, .inr node => node
  | .phrase .equality, (first, links) => joinLeft first links
  | .phrase .comparison, (first, links) => joinLeft first links
  | .phrase .term, (first, links) => joinLeft first links
  | .phrase .factor, (first, links) => joinLeft first links
  | .phrase .unary, .inl (operator, right) => Expr.unary operator right
  | .phrase .unary, .inr node => node
  | .phrase .primary, .inl token => literal token
  | .phrase .primary, .inr (.inl (_, inner, _)) => Expr.grouping inner
  | .phrase .primary, .inr (.inr name) => Expr.reference name

namespace Derivation

def parts : {form : Form} → Derivation form → form.Parts
  | _, leaf token _ => token
  | _, node name body => build name body.parts
  | _, pair before after => (before.parts, after.parts)
  | _, left chosen => .inl chosen.parts
  | _, right chosen => .inr chosen.parts
  | _, absent => none
  | _, present found => some found.parts
  | _, stop => []
  | _, more head tail => head.parts :: tail.parts

def tree {name : Symbol} (d : Derivation (.symbol name)) : name.Node := d.parts

end Derivation

end LoxLang.Grammar

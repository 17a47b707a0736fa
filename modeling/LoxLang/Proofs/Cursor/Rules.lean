import LoxLang.Fault
import LoxLang.Proofs.Grammar.Prefix
import LoxLang.Syntax.Declaration

/-!
# The rules at a cursor

The rules as they move a cursor through a token list.  A rule may look at any position,
which is a fault where the list has no token, and nothing tells that it ends: rules call
each other, and themselves for each turn of a loop, to a given depth.  A rule that ends
is one that has the same result at all depths from some on.
-/

namespace LoxLang

structure Cursor where
  tokens : List Token
  position : Nat
  reports : List Diagnostic

namespace Cursor

/-- A computation at a cursor that yields a value or a fault, or nothing if it goes too deep. -/
abbrev Rule (α : Type) : Type :=
  StateT Cursor (ExceptT Fault Option) α

def tooDeep {α : Type} : Rule α :=
  fun _ => none

def start (tokens : List Token) : Cursor :=
  ⟨tokens, 0, []⟩

/-! ## Tokens -/

def found : Option Token → Rule Token
  | some token => return token
  | none => throw .outOfRange

def peek : Rule Token := do
  let cursor ← get
  found cursor.tokens[cursor.position]?

/-- The token before the cursor; at the first position that is the last token of the list. -/
def previous : Rule Token := do
  let cursor ← get
  match cursor.position with
  | 0 => found cursor.tokens.getLast?
  | position + 1 => found cursor.tokens[position]?

def isAtEnd : Rule Bool := do
  return (← peek).kind = .eof

def check (kind : TokenKind) : Rule Bool := do
  if ← isAtEnd then return false
  return (← peek).kind = kind

/-- Moves behind the next token, but never behind an end token. -/
def advance : Rule Token := do
  unless ← isAtEnd do
    modify fun cursor => { cursor with position := cursor.position + 1 }
  previous

def accept : List TokenKind → Rule Bool
  | [] => return false
  | kind :: kinds => do
      if ← check kind then
        let _ ← advance
        return true
      accept kinds

def report (token : Token) (cause : SyntaxError.Cause) : Rule Unit :=
  modify fun cursor =>
    { cursor with reports := cursor.reports ++ [.atToken token cause.message] }

def consume (kind : TokenKind) (cause : SyntaxError.Cause) : Rule (Option Token) := do
  if ← check kind then
    return some (← advance)
  report (← peek) cause
  return none

/-! ## Expressions -/

mutual

def expression : Nat → Rule (Option Expr)
  | 0 => tooDeep
  | depth + 1 => do
      let some target ← chain depth .equality | return none
      if ← accept [.equal] then
        let equals ← previous
        let some value ← expression depth | return none
        if let .reference name := target then
          return some (.assign name value)
        report equals .assignmentTarget
      return some target

def chain : Nat → Tier → Rule (Option Expr)
  | 0, _ => tooDeep
  | depth + 1, tier => do
      let some left ← operand depth tier | return none
      links depth tier left

def links : Nat → Tier → Expr → Rule (Option Expr)
  | 0, _, _ => tooDeep
  | depth + 1, tier, left => do
      if ← accept tier.operators then
        let operator ← previous
        let some right ← operand depth tier | return none
        links depth tier (.binary left operator right)
      else
        return some left

def operand : Nat → Tier → Rule (Option Expr)
  | 0, _ => tooDeep
  | depth + 1, tier =>
      match tier.tighter? with
      | some tighter => chain depth tighter
      | none => unary depth

def unary : Nat → Rule (Option Expr)
  | 0 => tooDeep
  | depth + 1 => do
      if ← accept [.bang, .minus] then
        let operator ← previous
        let some right ← unary depth | return none
        return some (.unary operator right)
      primary depth

def primary : Nat → Rule (Option Expr)
  | 0 => tooDeep
  | depth + 1 => do
      if ← accept [.wordFalse] then
        return some (.literal (.boolean false))
      if ← accept [.wordTrue] then
        return some (.literal (.boolean true))
      if ← accept [.wordNil] then
        return some (.literal .nil)
      if ← accept [.number, .string] then
        return some (.literal (← previous).literal)
      if ← accept [.identifier] then
        return some (.reference (← previous))
      if ← accept [.leftParen] then
        let some inner ← expression depth | return none
        let some _ ← consume .rightParen .closingParen | return none
        return some (.grouping inner)
      report (← peek) .expression
      return none

end

/-! ## Declarations -/

def variableDeclaration (depth : Nat) : Rule (Option Stmt) := do
  let some name ← consume .identifier .variableName | return none
  let mut initial := none
  if ← accept [.equal] then
    let some value ← expression depth | return none
    initial := some value
  let some _ ← consume .semicolon .afterDeclaration | return none
  return some (.declare name initial)

def printStatement (depth : Nat) : Rule (Option Stmt) := do
  let some value ← expression depth | return none
  let some _ ← consume .semicolon .afterValue | return none
  return some (.print value)

def expressionStatement (depth : Nat) : Rule (Option Stmt) := do
  let some value ← expression depth | return none
  let some _ ← consume .semicolon .afterExpression | return none
  return some (.expression value)

def skip : Nat → Rule Unit
  | 0 => tooDeep
  | depth + 1 => do
      if ← isAtEnd then return
      if (← previous).kind = .semicolon then return
      if startsStatement (← peek).kind then return
      let _ ← advance
      skip depth

def synchronize (depth : Nat) : Rule Unit := do
  let _ ← advance
  skip depth

mutual

def declaration : Nat → Rule (Option Stmt)
  | 0 => tooDeep
  | depth + 1 => do
      let node ← if ← accept [.wordVar] then variableDeclaration depth else statement depth
      if node.isNone then synchronize depth
      return node

def statement : Nat → Rule (Option Stmt)
  | 0 => tooDeep
  | depth + 1 => do
      if ← accept [.wordPrint] then
        printStatement depth
      else if ← accept [.leftBrace] then
        let some body ← block depth [] | return none
        return some (.block body)
      else
        expressionStatement depth

def block : Nat → List Stmt → Rule (Option (List Stmt))
  | 0, _ => tooDeep
  | depth + 1, body => do
      if ← check .rightBrace <||> isAtEnd then
        let some _ ← consume .rightBrace .closingBrace | return none
        return some body
      let node ← declaration depth
      block depth (body ++ node.toList)

end

def declarations : Nat → List (Option Stmt) → Rule (List (Option Stmt))
  | 0, _ => tooDeep
  | depth + 1, nodes => do
      if ← isAtEnd then
        return nodes
      let node ← declaration depth
      declarations depth (nodes ++ [node])

def program (depth : Nat) : Rule (List Stmt) := do
  let nodes ← declarations depth []
  return nodes.filterMap id

end Cursor

end LoxLang

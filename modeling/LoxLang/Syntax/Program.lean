import LoxLang.Lexeme
import LoxLang.Syntax.Declaration

/-!
Programs and single expressions read from a source or from a token list.

Reading a source never fails as a whole; mistakes are diagnostics beside what
could be read, the lexical ones first.  A token list without an end token is no
text, and reading it runs out of tokens.
-/

namespace LoxLang

structure Program where
  statements : List Stmt
  diagnostics : List Diagnostic
  deriving Repr

namespace TokenText

def diagnostics (text : TokenText) (errors : List SyntaxError) : List Diagnostic :=
  errors.map (SyntaxError.diagnostic text.ending)

def program (text : TokenText) : Program :=
  let declared := Stmt.readDeclarations text.body
  { statements := declared.filterMap Declared.node
    diagnostics := text.diagnostics (declared.flatMap Declared.errors) }

def position (text : TokenText) (rest : List Token) : Nat :=
  text.body.length - rest.length

end TokenText

def Program.ofSource (source : String) : Program :=
  let scanned := scan source
  let program := scanned.text.program
  { program with diagnostics := scanned.problems ++ program.diagnostics }

/-- A single expression at the start of a text; what follows it is left unread. -/
structure LeadingExpr where
  node : Option Expr
  position : Nat
  diagnostics : List Diagnostic
  deriving Repr

namespace LeadingExpr

def ofText (text : TokenText) : LeadingExpr :=
  let reply := Expr.read text.body
  { node := reply.value?
    position := text.position reply.rest
    diagnostics := text.diagnostics reply.errors }

def ofSource (source : String) : LeadingExpr :=
  let scanned := scan source
  let leading := ofText scanned.text
  { leading with diagnostics := scanned.problems ++ leading.diagnostics }

/--
The expression at the start of a token list.  Without an end token it can be read
as long as a token is left over, since the token behind the expression is looked
at; no error is then at the end.
-/
def ofTokens? (tokens : List Token) : Option LeadingExpr :=
  match TokenText.ofList? tokens with
  | some text => some (ofText text)
  | none =>
      if (Expr.read tokens).rest.isEmpty then none
      else some (ofText ⟨tokens, Token.ending 0⟩)

end LeadingExpr

end LoxLang

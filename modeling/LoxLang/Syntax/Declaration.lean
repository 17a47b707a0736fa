import LoxLang.Syntax.Expression

/-!
The rules for statements and declarations, and recovery from errors.

A declaration that a rule refuses is dropped: tokens are skipped until the next
one plausibly starts a statement, and reading goes on there.  Every declaration
reads at least one token.
-/

namespace LoxLang

/-- The keywords that start a statement, also those of statements not in the grammar. -/
def startsStatement : TokenKind → Bool
  | .wordClass | .wordFun | .wordVar | .wordFor | .wordIf | .wordWhile | .wordPrint
  | .wordReturn => true
  | _ => false

def skipStatement (previous : Token) : List Token → List Token
  | [] => []
  | token :: rest =>
      if previous.kind = .semicolon || startsStatement token.kind then token :: rest
      else skipStatement token rest

/-- The tokens from the next probable statement on; the token to blame is always skipped. -/
def recover : List Token → List Token
  | [] => []
  | token :: rest => skipStatement token rest

theorem skipStatement_length (previous : Token) (tokens : List Token) :
    (skipStatement previous tokens).length ≤ tokens.length := by
  fun_induction skipStatement previous tokens with
  | case1 => exact Nat.le_refl _
  | case2 => exact Nat.le_refl _
  | case3 _ _ _ _ ih => exact Nat.le_succ_of_le ih

theorem recover_length (tokens : List Token) : (recover tokens).length ≤ tokens.length - 1 := by
  cases tokens with
  | nil => exact Nat.le_refl _
  | cons token rest => exact skipStatement_length token rest

/-- What one declaration yields: its node unless it was dropped, and the tokens after it. -/
structure Declared where
  node : Option Stmt
  rest : List Token
  errors : List SyntaxError
  deriving Repr

def Reply.declared {n : Nat} : Reply Stmt (n + 1) → { d : Declared // d.rest.length < n + 1 }
  | .accepted node rest errors shorter => ⟨⟨some node, rest, errors⟩, shorter⟩
  | .refused rest errors notLonger =>
      ⟨⟨none, recover rest, errors⟩, by have := recover_length rest; simp only; omega⟩

namespace Stmt

def endedBy (node : Stmt) (cause : SyntaxError.Cause) (tokens : List Token) :
    Reply Stmt (tokens.length + 1) :=
  (Reply.expect .semicolon cause tokens).loosen.map fun _ => node

def readVariable (tokens : List Token) : Reply Stmt tokens.length :=
  (Reply.expect .identifier .variableName tokens).andThen fun
    | name, [], _ => (declare name none).endedBy .afterDeclaration []
    | name, equals :: rest, _ =>
        if equals.kind = .equal then
          ((Expr.read rest).andThen fun initial rest' _ =>
            (declare name (some initial)).endedBy .afterDeclaration rest').loosen.loosen
        else (declare name none).endedBy .afterDeclaration (equals :: rest)

def readPrint (tokens : List Token) : Reply Stmt tokens.length :=
  (Expr.read tokens).andThen fun value rest _ => (print value).endedBy .afterValue rest

def readExpression (tokens : List Token) : Reply Stmt tokens.length :=
  (Expr.read tokens).andThen fun value rest _ => (expression value).endedBy .afterExpression rest

mutual

/-- One declaration of the text `token :: rest`. -/
def readDeclaration (token : Token) (rest : List Token) :
    { d : Declared // d.rest.length < rest.length + 1 } :=
  Reply.declared <|
    if token.kind = .wordVar then (readVariable rest).loosen
    else if token.kind = .wordPrint then (readPrint rest).loosen
    else if token.kind = .leftBrace then ((readBlock rest).map block).loosen
    else readExpression (token :: rest)
termination_by (rest.length, 1)

def readBlock (tokens : List Token) : Reply (List Stmt) tokens.length :=
  match tokens with
  | [] => .blame .closingBrace []
  | token :: rest =>
      if token.kind = .rightBrace then .done [] rest
      else
        let ⟨first, shorter⟩ := readDeclaration token rest
        (((readBlock first.rest).map (first.node.toList ++ ·)).after first.errors).widen
          (Nat.le_of_lt shorter)
termination_by (tokens.length, 0)

end

def readDeclarations : List Token → List Declared
  | [] => []
  | token :: rest =>
      let ⟨first, _⟩ := readDeclaration token rest
      first :: readDeclarations first.rest
termination_by tokens => tokens.length

end Stmt

end LoxLang

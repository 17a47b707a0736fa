import LoxLang.Syntax.Tree
import LoxLang.Diagnostic

/-!
What a grammar rule answers: a node with the tokens after it, or a refusal with
the tokens at which it gave up; in both cases with the errors found on the way.

A rule never lengthens its input and never accepts without reading a token.  The
answer's type carries the bound, so rules that call each other end.
-/

namespace LoxLang

inductive SyntaxError.Cause where
  | expression
  | closingParen
  | variableName
  | afterDeclaration
  | afterValue
  | afterExpression
  | closingBrace
  | assignmentTarget
  deriving DecidableEq, Repr, Inhabited

namespace SyntaxError.Cause

def message : Cause → String
  | expression => "Expect expression."
  | closingParen => "Expect ')' after expression."
  | variableName => "Expect variable name."
  | afterDeclaration => "Expect ';' after variable declaration."
  | afterValue => "Expect ';' after value."
  | afterExpression => "Expect ';' after expression."
  | closingBrace => "Expect '\x7d' after block."
  | assignmentTarget => "Invalid assignment target."

/-- Whether the statement at hand is given up; a wrong target alone is no reason to. -/
def isPanic (cause : Cause) : Bool :=
  cause ≠ assignmentTarget

end SyntaxError.Cause

/-- An error at a place in the token list: the first of the tokens from there on is to blame, or
the end if there is none. -/
structure SyntaxError where
  cause : SyntaxError.Cause
  unread : List Token
  deriving DecidableEq, Repr, Inhabited

def SyntaxError.diagnostic (ending : Token) (error : SyntaxError) : Diagnostic :=
  .atToken (error.unread.headD ending) error.cause.message

/-- The answer of a rule that may leave fewer tokens than `bound`. -/
inductive Reply (α : Type) (bound : Nat) where
  | accepted (value : α) (rest : List Token) (errors : List SyntaxError)
      (shorter : rest.length < bound)
  | refused (rest : List Token) (errors : List SyntaxError) (notLonger : rest.length ≤ bound)

namespace Reply

variable {α β : Type} {m n : Nat}

def value? : Reply α n → Option α
  | accepted value _ _ _ => some value
  | refused _ _ _ => none

def rest : Reply α n → List Token
  | accepted _ rest _ _ => rest
  | refused rest _ _ => rest

def errors : Reply α n → List SyntaxError
  | accepted _ _ errors _ => errors
  | refused _ errors _ => errors

def widen (reply : Reply α m) (h : m ≤ n) : Reply α n :=
  match reply with
  | accepted value rest errors shorter => accepted value rest errors (Nat.lt_of_lt_of_le shorter h)
  | refused rest errors notLonger => refused rest errors (Nat.le_trans notLonger h)

def loosen (reply : Reply α n) : Reply α (n + 1) :=
  reply.widen (Nat.le_succ n)

def after (earlier : List SyntaxError) : Reply α n → Reply α n
  | accepted value rest errors shorter => accepted value rest (earlier ++ errors) shorter
  | refused rest errors notLonger => refused rest (earlier ++ errors) notLonger

def map (f : α → β) : Reply α n → Reply β n
  | accepted value rest errors shorter => accepted (f value) rest errors shorter
  | refused rest errors notLonger => refused rest errors notLonger

def andThen (reply : Reply α n)
    (next : (value : α) → (rest : List Token) → rest.length < n → Reply β (rest.length + 1)) :
    Reply β n :=
  match reply with
  | accepted value rest errors shorter =>
      ((next value rest shorter).widen shorter).after errors
  | refused rest errors notLonger => refused rest errors notLonger

def done (value : α) (rest : List Token) (errors : List SyntaxError := []) :
    Reply α (rest.length + 1) :=
  accepted value rest errors (Nat.lt_succ_self _)

/-- Refuses at the first of the given tokens. -/
def blame (cause : SyntaxError.Cause) (tokens : List Token) : Reply α tokens.length :=
  refused tokens [⟨cause, tokens⟩] (Nat.le_refl _)

@[simp] theorem value?_widen (reply : Reply α m) (h : m ≤ n) :
    (reply.widen h).value? = reply.value? := by
  cases reply <;> rfl

@[simp] theorem rest_widen (reply : Reply α m) (h : m ≤ n) : (reply.widen h).rest = reply.rest := by
  cases reply <;> rfl

@[simp] theorem errors_widen (reply : Reply α m) (h : m ≤ n) :
    (reply.widen h).errors = reply.errors := by
  cases reply <;> rfl

@[simp] theorem value?_after (earlier : List SyntaxError) (reply : Reply α n) :
    (reply.after earlier).value? = reply.value? := by
  cases reply <;> rfl

@[simp] theorem rest_after (earlier : List SyntaxError) (reply : Reply α n) :
    (reply.after earlier).rest = reply.rest := by
  cases reply <;> rfl

@[simp] theorem errors_after (earlier : List SyntaxError) (reply : Reply α n) :
    (reply.after earlier).errors = earlier ++ reply.errors := by
  cases reply <;> rfl

@[simp] theorem value?_map (f : α → β) (reply : Reply α n) :
    (reply.map f).value? = reply.value?.map f := by
  cases reply <;> rfl

@[simp] theorem rest_map (f : α → β) (reply : Reply α n) : (reply.map f).rest = reply.rest := by
  cases reply <;> rfl

@[simp] theorem errors_map (f : α → β) (reply : Reply α n) :
    (reply.map f).errors = reply.errors := by
  cases reply <;> rfl

def expect (kind : TokenKind) (cause : SyntaxError.Cause) (tokens : List Token) :
    Reply Token tokens.length :=
  match tokens with
  | [] => blame cause []
  | token :: rest => if token.kind = kind then done token rest else blame cause (token :: rest)

end Reply

end LoxLang

import LoxLang.Syntax.Reply

/-!
The rules for expressions, from assignment down to single operands.

The four tiers of binary operators are one rule with the tier as a parameter: an
operand, then operators of the tier with an operand each, grouped to the left.
Assignment and the unary operators group to the right.
-/

namespace LoxLang

inductive Tier where
  | equality | comparison | sum | product
  deriving DecidableEq, Repr

namespace Tier

def binds : Tier → TokenKind → Bool
  | equality, kind => kind = .bangEqual || kind = .equalEqual
  | comparison, kind =>
      kind = .greater || kind = .greaterEqual || kind = .less || kind = .lessEqual
  | sum, kind => kind = .minus || kind = .plus
  | product, kind => kind = .slash || kind = .star

/-- The tier whose chains are the operands of a tier. -/
def tighter? : Tier → Option Tier
  | equality => some comparison
  | comparison => some sum
  | sum => some product
  | product => none

def rank : Tier → Nat
  | equality => 4
  | comparison => 3
  | sum => 2
  | product => 1

theorem rank_pos (tier : Tier) : 0 < tier.rank := by
  cases tier <;> decide

theorem rank_tighter {tier tighter : Tier} (h : tier.tighter? = some tighter) :
    tighter.rank < tier.rank := by
  cases tier <;> cases h <;> decide

end Tier

def isUnaryOperator (kind : TokenKind) : Bool :=
  kind = .bang || kind = .minus

def Token.operand? (token : Token) : Option Expr :=
  match token.kind with
  | .wordFalse => some (.literal (.boolean false))
  | .wordTrue => some (.literal (.boolean true))
  | .wordNil => some (.literal .nil)
  | .number => some (.literal token.literal)
  | .string => some (.literal token.literal)
  | .identifier => some (.reference token)
  | _ => none

namespace Expr

/-- What an assignment makes of its two sides; a wrong target is reported and the left side kept. -/
def assignTo (target : Expr) (value : Expr) (equals : List Token) : Expr × List SyntaxError :=
  match target with
  | reference name => (assign name value, [])
  | target => (target, [⟨.assignmentTarget, equals⟩])

mutual

def read (tokens : List Token) : Reply Expr tokens.length :=
  (readChain .equality tokens).andThen fun
    | target, [], _ => .done target []
    | target, equals :: rest, _shorter =>
        if equals.kind = .equal then
          ((read rest).andThen fun value rest' _ =>
            let (node, errors) := target.assignTo value (equals :: rest)
            .done node rest' errors).loosen.loosen
        else .done target (equals :: rest)
termination_by (tokens.length, 2 * Tier.equality.rank + 2)
decreasing_by
  · exact Prod.Lex.right _ (Nat.lt_succ_self _)
  · exact Prod.Lex.left _ _ (Nat.lt_of_succ_lt _shorter)

def readChain (tier : Tier) (tokens : List Token) : Reply Expr tokens.length :=
  (readOperand tier tokens).andThen fun left rest _ => readLinks tier left rest
termination_by (tokens.length, 2 * tier.rank + 1)

/-- The operators of a tier that follow, each with its right operand. -/
def readLinks (tier : Tier) (left : Expr) (tokens : List Token) :
    Reply Expr (tokens.length + 1) :=
  match tokens with
  | [] => .done left []
  | operator :: rest =>
      if tier.binds operator.kind then
        ((readOperand tier rest).andThen fun right rest' _ =>
          readLinks tier (.binary left operator right) rest').loosen.loosen
      else .done left (operator :: rest)
termination_by (tokens.length, 0)

def readOperand (tier : Tier) (tokens : List Token) : Reply Expr tokens.length :=
  match _next : tier.tighter? with
  | some tier' => readChain tier' tokens
  | none => readUnary tokens
termination_by (tokens.length, 2 * tier.rank)
decreasing_by
  · exact Prod.Lex.right _ (by have := Tier.rank_tighter _next; omega)
  · exact Prod.Lex.right _ (by have := tier.rank_pos; omega)

def readUnary (tokens : List Token) : Reply Expr tokens.length :=
  match tokens with
  | [] => .blame .expression []
  | token :: rest =>
      if isUnaryOperator token.kind then
        ((readUnary rest).map (.unary token)).loosen
      else readPrimary token rest
termination_by (tokens.length, 1)

def readPrimary (token : Token) (rest : List Token) : Reply Expr (rest.length + 1) :=
  match token.operand? with
  | some operand => .done operand rest
  | none =>
      if token.kind = .leftParen then
        ((read rest).andThen fun inner rest' _ =>
          (Reply.expect .rightParen .closingParen rest').loosen.map fun _ => .grouping inner).loosen
      else .blame .expression (token :: rest)
termination_by (rest.length + 1, 0)

end

end Expr

end LoxLang

import LoxLang.Value

/-!
Tokens: a kind, the piece of source text, the literal it denotes, and its line.
-/

namespace LoxLang

inductive TokenKind where
  | leftParen | rightParen | leftBrace | rightBrace
  | comma | dot | minus | plus | semicolon | slash | star
  | bang | bangEqual | equal | equalEqual
  | greater | greaterEqual | less | lessEqual
  | identifier | string | number
  | wordAnd | wordClass | wordElse | wordFalse | wordFun | wordFor | wordIf | wordNil
  | wordOr | wordPrint | wordReturn | wordSuper | wordThis | wordTrue | wordVar | wordWhile
  | eof
  deriving DecidableEq, Repr, Inhabited

namespace TokenKind

def name : TokenKind → String
  | leftParen => "LEFT_PAREN"
  | rightParen => "RIGHT_PAREN"
  | leftBrace => "LEFT_BRACE"
  | rightBrace => "RIGHT_BRACE"
  | comma => "COMMA"
  | dot => "DOT"
  | minus => "MINUS"
  | plus => "PLUS"
  | semicolon => "SEMICOLON"
  | slash => "SLASH"
  | star => "STAR"
  | bang => "BANG"
  | bangEqual => "BANG_EQUAL"
  | equal => "EQUAL"
  | equalEqual => "EQUAL_EQUAL"
  | greater => "GREATER"
  | greaterEqual => "GREATER_EQUAL"
  | less => "LESS"
  | lessEqual => "LESS_EQUAL"
  | identifier => "IDENTIFIER"
  | string => "STRING"
  | number => "NUMBER"
  | wordAnd => "AND"
  | wordClass => "CLASS"
  | wordElse => "ELSE"
  | wordFalse => "FALSE"
  | wordFun => "FUN"
  | wordFor => "FOR"
  | wordIf => "IF"
  | wordNil => "NIL"
  | wordOr => "OR"
  | wordPrint => "PRINT"
  | wordReturn => "RETURN"
  | wordSuper => "SUPER"
  | wordThis => "THIS"
  | wordTrue => "TRUE"
  | wordVar => "VAR"
  | wordWhile => "WHILE"
  | eof => "EOF"

def all : List TokenKind :=
  [leftParen, rightParen, leftBrace, rightBrace, comma, dot, minus, plus, semicolon, slash, star,
    bang, bangEqual, equal, equalEqual, greater, greaterEqual, less, lessEqual,
    identifier, string, number,
    wordAnd, wordClass, wordElse, wordFalse, wordFun, wordFor, wordIf, wordNil,
    wordOr, wordPrint, wordReturn, wordSuper, wordThis, wordTrue, wordVar, wordWhile, eof]

def ofName? (name : String) : Option TokenKind :=
  all.find? fun kind => kind.name == name

end TokenKind

structure Token where
  kind : TokenKind
  lexeme : String
  literal : Value
  line : Int
  deriving DecidableEq, Repr, Inhabited

namespace Token

def text (t : Token) : String :=
  t.kind.name ++ " " ++ t.lexeme ++ " " ++ t.literal.literalText

/-- A token without a literal. -/
def bare (kind : TokenKind) (lexeme : String) (line : Int) : Token :=
  ⟨kind, lexeme, .nil, line⟩

def ending (line : Int) : Token :=
  bare .eof "" line

end Token

structure TokenText where
  body : List Token
  ending : Token
  deriving Repr

namespace TokenText

/-- Cuts a token list at its first end token; what follows it is never read. -/
def ofList? (tokens : List Token) : Option TokenText :=
  match tokens.dropWhile (·.kind ≠ .eof) with
  | [] => none
  | ending :: _ => some ⟨tokens.takeWhile (·.kind ≠ .eof), ending⟩

def toList (text : TokenText) : List Token :=
  text.body ++ [text.ending]

end TokenText

end LoxLang

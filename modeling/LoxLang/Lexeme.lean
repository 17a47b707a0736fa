import LoxLang.Token
import LoxLang.Diagnostic

/-!
Cutting source text into lexemes.

A text is cut from the left, each time at the longest lexeme that starts there.
A lexeme is a token, a comment, a blank, or a mistake; the lexemes of a text put
together are the text.  Every token and every mistake stands on the line on which
its lexeme ends.
-/

namespace LoxLang

inductive LexemeForm where
  | token (kind : TokenKind) (literal : Value)
  | comment
  | blank
  | unexpectedCharacter
  | unterminatedString
  deriving DecidableEq, Repr

structure Lexeme where
  text : List Char
  form : LexemeForm
  deriving DecidableEq, Repr

namespace Lexeme

/-! ## Character classes -/

def punctuation? : Char → Option TokenKind
  | '(' => some .leftParen
  | ')' => some .rightParen
  | '{' => some .leftBrace
  | '}' => some .rightBrace
  | ',' => some .comma
  | '.' => some .dot
  | '-' => some .minus
  | '+' => some .plus
  | ';' => some .semicolon
  | '*' => some .star
  | _ => none

/-- The operators that an `=` may follow: the kind alone, and the kind with it. -/
def comparison? : Char → Option (TokenKind × TokenKind)
  | '!' => some (.bang, .bangEqual)
  | '=' => some (.equal, .equalEqual)
  | '<' => some (.less, .lessEqual)
  | '>' => some (.greater, .greaterEqual)
  | _ => none

def isBlank (c : Char) : Bool :=
  c == ' ' || c == '\r' || c == '\t' || c == '\n'

def isWordStart (c : Char) : Bool :=
  c.isAlpha || c == '_'

def isWordPart (c : Char) : Bool :=
  isWordStart c || c.isDigit

def keywords : List (String × TokenKind) :=
  [("and", .wordAnd), ("class", .wordClass), ("else", .wordElse), ("false", .wordFalse),
    ("for", .wordFor), ("fun", .wordFun), ("if", .wordIf), ("nil", .wordNil),
    ("or", .wordOr), ("print", .wordPrint), ("return", .wordReturn), ("super", .wordSuper),
    ("this", .wordThis), ("true", .wordTrue), ("var", .wordVar), ("while", .wordWhile)]

def wordKind (word : List Char) : TokenKind :=
  (keywords.lookup (String.ofList word)).getD .identifier

/-! ## The first lexeme of a text -/

def cutOperator (c : Char) (alone withEqual : TokenKind) : List Char → Lexeme × List Char
  | '=' :: rest => (⟨[c, '='], .token withEqual .nil⟩, rest)
  | rest => (⟨[c], .token alone .nil⟩, rest)

def cutSlash : List Char → Lexeme × List Char
  | '/' :: rest =>
      (⟨'/' :: '/' :: rest.takeWhile (· ≠ '\n'), .comment⟩, rest.dropWhile (· ≠ '\n'))
  | rest => (⟨['/'], .token .slash .nil⟩, rest)

def cutString (rest : List Char) : Lexeme × List Char :=
  let content := rest.takeWhile (· ≠ '"')
  match rest.dropWhile (· ≠ '"') with
  | [] => (⟨'"' :: content, .unterminatedString⟩, [])
  | quote :: rest' =>
      (⟨'"' :: content ++ [quote], .token .string (.string (String.ofList content))⟩, rest')

def spanNumber (text : List Char) : List Char × List Char :=
  let whole := text.takeWhile Char.isDigit
  match text.dropWhile Char.isDigit with
  | '.' :: d :: rest =>
      if d.isDigit then
        (whole ++ '.' :: (d :: rest).takeWhile Char.isDigit, (d :: rest).dropWhile Char.isDigit)
      else (whole, '.' :: d :: rest)
  | rest => (whole, rest)

def cutNumber (text : List Char) : Lexeme × List Char :=
  let (number, rest) := spanNumber text
  (⟨number, .token .number (.number (Number.ofDigitText number))⟩, rest)

def cutWord (text : List Char) : Lexeme × List Char :=
  let word := text.takeWhile isWordPart
  (⟨word, .token (wordKind word) .nil⟩, text.dropWhile isWordPart)

/-- The first lexeme of the text `c :: rest`, and the text after it. -/
def cut (c : Char) (rest : List Char) : Lexeme × List Char :=
  match punctuation? c, comparison? c with
  | some kind, _ => (⟨[c], .token kind .nil⟩, rest)
  | none, some (alone, withEqual) => cutOperator c alone withEqual rest
  | none, none =>
      if c = '/' then cutSlash rest
      else if isBlank c then (⟨[c], .blank⟩, rest)
      else if c = '"' then cutString rest
      else if c.isDigit then cutNumber (c :: rest)
      else if isWordStart c then cutWord (c :: rest)
      else (⟨[c], .unexpectedCharacter⟩, rest)

theorem spanNumber_append (text : List Char) :
    (spanNumber text).1 ++ (spanNumber text).2 = text := by
  have whole := List.takeWhile_append_dropWhile (p := Char.isDigit) (l := text)
  unfold spanNumber
  split
  next d rest after =>
    split
    · simp only [List.append_assoc, List.cons_append, List.takeWhile_append_dropWhile]
      rw [← after, whole]
    · simp only; rw [← after, whole]
  next => exact whole

theorem spanNumber_ne_nil {c : Char} (rest : List Char) (digit : c.isDigit = true) :
    (spanNumber (c :: rest)).1 ≠ [] := by
  unfold spanNumber
  split
  · split <;> simp [digit]
  · simp [digit]

theorem cut_append (c : Char) (rest : List Char) :
    (cut c rest).1.text ++ (cut c rest).2 = c :: rest := by
  unfold cut
  split
  · rfl
  · unfold cutOperator; split <;> simp
  · split
    next slash =>
      subst slash
      unfold cutSlash
      split <;> simp [List.takeWhile_append_dropWhile]
    · split
      · rfl
      · split
        next quote =>
          subst quote
          have parts := List.takeWhile_append_dropWhile (p := (· ≠ '"')) (l := rest)
          unfold cutString
          split
          next after => rw [after, List.append_nil] at parts; simp only [parts, List.append_nil]
          next after =>
            rw [after] at parts
            simpa using parts
        · split
          · exact spanNumber_append _
          · split
            · exact List.takeWhile_append_dropWhile
            · rfl

theorem cut_text_ne_nil (c : Char) (rest : List Char) : (cut c rest).1.text ≠ [] := by
  unfold cut
  split
  · simp
  · unfold cutOperator; split <;> simp
  · split
    · unfold cutSlash; split <;> simp
    · split
      · simp
      · split
        · unfold cutString; split <;> simp
        · split
          next digit => exact spanNumber_ne_nil rest digit
          · split
            next start => simp [cutWord, isWordPart, start]
            · simp

theorem cut_rest_length (c : Char) (rest : List Char) :
    (cut c rest).2.length < (c :: rest).length := by
  have parts := congrArg List.length (cut_append c rest)
  have nonempty := List.length_pos_iff.mpr (cut_text_ne_nil c rest)
  simp only [List.length_append] at parts
  omega

def ofText : List Char → List Lexeme
  | [] => []
  | c :: rest => (cut c rest).1 :: ofText (cut c rest).2
termination_by text => text.length
decreasing_by exact cut_rest_length c rest

theorem flatMap_ofText (text : List Char) : (ofText text).flatMap Lexeme.text = text := by
  fun_induction ofText text with
  | case1 => rfl
  | case2 c rest ih => rw [List.flatMap_cons, ih, cut_append]

/-! ## Lines -/

def newlines (text : List Char) : Nat :=
  text.count '\n'

/-- Each lexeme with the line on which it ends, when the first starts on the given line. -/
def withLines : Nat → List Lexeme → List (Lexeme × Nat)
  | _, [] => []
  | line, lexeme :: rest =>
      let last := line + newlines lexeme.text
      (lexeme, last) :: withLines last rest

def token? (lexeme : Lexeme) (line : Nat) : Option Token :=
  match lexeme.form with
  | .token kind literal => some ⟨kind, String.ofList lexeme.text, literal, line⟩
  | _ => none

def problem? (lexeme : Lexeme) (line : Nat) : Option Diagnostic :=
  match lexeme.form with
  | .unexpectedCharacter => some (.lexical line "Unexpected character.")
  | .unterminatedString => some (.lexical line "Unterminated string.")
  | _ => none

end Lexeme

structure Scan where
  text : TokenText
  problems : List Diagnostic
  deriving Repr

def scan (source : String) : Scan :=
  let text := source.toList
  let lexemes := Lexeme.withLines 1 (Lexeme.ofText text)
  { text :=
      { body := lexemes.filterMap fun (lexeme, line) => lexeme.token? line
        ending := Token.ending (1 + Lexeme.newlines text : Nat) }
    problems := lexemes.filterMap fun (lexeme, line) => lexeme.problem? line }

end LoxLang

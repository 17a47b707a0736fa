import LoxLang.Lexeme
import LoxLang.Proofs.Number.Literals

/-!
# Lexical forms

What a lexeme looks like, and the decomposition of a text into lexemes, without a
word about how a scanner goes through the text.
-/

namespace LoxLang.Lexing

def Digit (c : Char) : Prop :=
  '0' ≤ c ∧ c ≤ '9'

def Letter (c : Char) : Prop :=
  ('a' ≤ c ∧ c ≤ 'z') ∨ ('A' ≤ c ∧ c ≤ 'Z') ∨ c = '_'

def Digits (text : List Char) : Prop :=
  text ≠ [] ∧ ∀ c ∈ text, Digit c

/-- The number that is written with the digits before and behind a point. -/
def numeral (digits decimals : List Char) : ℚ :=
  Nat.ofDigitChars 10 (digits ++ decimals) 0 / 10 ^ decimals.length

inductive Word : List Char → Prop
  | intro {c rest} : Letter c → (∀ d ∈ rest, Letter d ∨ Digit d) → Word (c :: rest)

def symbols : List (List Char × TokenKind) :=
  [(['('], .leftParen), ([')'], .rightParen), (['{'], .leftBrace), (['}'], .rightBrace),
    ([','], .comma), (['.'], .dot), (['-'], .minus), (['+'], .plus), ([';'], .semicolon),
    (['*'], .star), (['/'], .slash), (['!'], .bang), (['!', '='], .bangEqual), (['='], .equal),
    (['=', '='], .equalEqual), (['>'], .greater), (['>', '='], .greaterEqual), (['<'], .less),
    (['<', '='], .lessEqual)]

def reserved : List (String × TokenKind) :=
  [("and", .wordAnd), ("class", .wordClass), ("else", .wordElse), ("false", .wordFalse),
    ("fun", .wordFun), ("for", .wordFor), ("if", .wordIf), ("nil", .wordNil), ("or", .wordOr),
    ("print", .wordPrint), ("return", .wordReturn), ("super", .wordSuper), ("this", .wordThis),
    ("true", .wordTrue), ("var", .wordVar), ("while", .wordWhile)]

/-- The text is as a whole one lexeme of the form. -/
inductive Matches : List Char → LexemeForm → Prop
  | symbol {text kind} : (text, kind) ∈ symbols → Matches text (.token kind .nil)
  | comment {content} : '\n' ∉ content → Matches ('/' :: '/' :: content) .comment
  | blank {c} : c ∈ [' ', '\r', '\t', '\n'] → Matches [c] .blank
  | string {content} :
      '"' ∉ content →
      Matches ('"' :: content ++ ['"']) (.token .string (.string (String.ofList content)))
  | whole {digits x} :
      Digits digits → Number.IsNearest x (numeral digits []) →
      Matches digits (.token .number (.number x))
  | fraction {digits decimals x} :
      Digits digits → Digits decimals → Number.IsNearest x (numeral digits decimals) →
      Matches (digits ++ '.' :: decimals) (.token .number (.number x))
  | keyword {word kind} :
      Word word → (String.ofList word, kind) ∈ reserved → Matches word (.token kind .nil)
  | identifier {word} :
      Word word → (∀ kind, (String.ofList word, kind) ∉ reserved) →
      Matches word (.token .identifier .nil)

def NoneMatches (text : List Char) : Prop :=
  ∀ front form, front <+: text → ¬ Matches front form

/-- The first lexeme of the text, and what follows it. -/
inductive First : (text : List Char) → Lexeme → (rest : List Char) → Prop
  | longest {text lexeme rest} :
      text = lexeme.text ++ rest →
      Matches lexeme.text lexeme.form →
      (∀ front form, front <+: text → Matches front form → front.length ≤ lexeme.text.length) →
      First text lexeme rest
  | unexpected {c rest} :
      NoneMatches (c :: rest) → c ≠ '"' → First (c :: rest) ⟨[c], .unexpectedCharacter⟩ rest
  | unterminated {rest} :
      NoneMatches ('"' :: rest) → First ('"' :: rest) ⟨'"' :: rest, .unterminatedString⟩ []

/-- The lexemes follow each other from the start of the text to its end. -/
inductive Decomposes : List Char → List Lexeme → Prop
  | nil : Decomposes [] []
  | cons {text lexeme rest lexemes} :
      First text lexeme rest → Decomposes rest lexemes → Decomposes text (lexeme :: lexemes)

/-- Each lexeme with the line on which the part of the text that it closes ends. -/
def located (lexemes : List Lexeme) : List (Lexeme × Nat) :=
  lexemes.mapIdx fun i lexeme =>
    (lexeme, 1 + ((lexemes.take (i + 1)).flatMap Lexeme.text).count '\n')

def tokens : List (Lexeme × Nat) → List Token
  | [] => []
  | (⟨text, .token kind literal⟩, line) :: rest =>
      ⟨kind, String.ofList text, literal, line⟩ :: tokens rest
  | _ :: rest => tokens rest

def problems : List (Lexeme × Nat) → List Diagnostic
  | [] => []
  | (⟨_, .unexpectedCharacter⟩, line) :: rest =>
      ⟨"lexical", line, "", "Unexpected character."⟩ :: problems rest
  | (⟨_, .unterminatedString⟩, line) :: rest =>
      ⟨"lexical", line, "", "Unterminated string."⟩ :: problems rest
  | _ :: rest => problems rest

theorem Matches.ne_nil {text : List Char} {form : LexemeForm} (h : Matches text form) :
    text ≠ [] := by
  cases h with
  | symbol hmem =>
      rintro rfl
      simp [symbols] at hmem
  | whole hdigits _ => exact hdigits.1
  | keyword hword _ => cases hword; simp
  | identifier hword _ => cases hword; simp
  | _ => simp

theorem Matches.kind_ne_eof {text : List Char} {kind : TokenKind} {literal : Value}
    (h : Matches text (.token kind literal)) : kind ≠ .eof := by
  cases h with
  | symbol hmem =>
      rintro rfl
      simp [symbols] at hmem
  | keyword _ hmem =>
      rintro rfl
      simp [reserved] at hmem
  | _ => simp

/-! ## Character classes -/

theorem isDigit_iff {c : Char} : c.isDigit = true ↔ Digit c := by
  simp [Char.isDigit, Digit, Char.le_def]

theorem isWordStart_iff {c : Char} : Lexeme.isWordStart c = true ↔ Letter c := by
  have hupper : c.isUpper = true ↔ 'A' ≤ c ∧ c ≤ 'Z' := decide_eq_true_iff
  have hlower : c.isLower = true ↔ 'a' ≤ c ∧ c ≤ 'z' := by
    change (decide _ && decide _) = true ↔ _
    rw [Bool.and_eq_true, decide_eq_true_iff, decide_eq_true_iff]
    rfl
  change ((c.isUpper || c.isLower) || c == '_') = true ↔ _
  rw [Bool.or_eq_true, Bool.or_eq_true, hupper, hlower, beq_iff_eq, Letter, or_assoc]
  exact or_left_comm

theorem isWordPart_iff {c : Char} : Lexeme.isWordPart c = true ↔ Letter c ∨ Digit c := by
  rw [Lexeme.isWordPart, Bool.or_eq_true, isWordStart_iff, isDigit_iff]

theorem isBlank_iff {c : Char} : Lexeme.isBlank c = true ↔ c ∈ [' ', '\r', '\t', '\n'] := by
  simp [Lexeme.isBlank, or_assoc]

theorem Letter.not_digit {c : Char} (h : Letter c) : ¬ Digit c := by
  intro hdigit
  rcases h with hlower | hupper | rfl
  · exact absurd (Char.le_trans hlower.1 hdigit.2) (by decide)
  · exact absurd (Char.le_trans hupper.1 hdigit.2) (by decide)
  · exact absurd hdigit.2 (by decide)

/-! ## Number literals -/

section

variable {digits decimals : List Char} {x : Float}

theorem isNearest_numeral : Number.IsNearest x (numeral digits decimals) ↔
    x = Magnitude.toFloat false (Decimal.ofDigits digits decimals).magnitude := by
  have hvalue : numeral digits decimals = (Decimal.ofDigits digits decimals).value := by
    simp [numeral, Decimal.value, Decimal.ofDigits, div_eq_mul_inv]
  rw [hvalue, Number.isNearest_iff]

theorem takeWhile_isDigit_append (h : Digits digits) (back : List Char) :
    (digits ++ back).takeWhile Char.isDigit = digits ++ back.takeWhile Char.isDigit :=
  List.takeWhile_append_of_pos fun c hc => isDigit_iff.mpr (h.2 c hc)

theorem dropWhile_isDigit_append (h : Digits digits) (back : List Char) :
    (digits ++ back).dropWhile Char.isDigit = back.dropWhile Char.isDigit :=
  List.dropWhile_append_of_pos fun c hc => isDigit_iff.mpr (h.2 c hc)

theorem isNearest_whole (h : Digits digits) :
    Number.IsNearest x (numeral digits []) ↔ x = Number.ofDigitText digits := by
  have htake := takeWhile_isDigit_append h []
  have hdrop := dropWhile_isDigit_append h []
  rw [List.append_nil] at htake hdrop
  rw [isNearest_numeral, Number.ofDigitText, htake, hdrop]
  simp

theorem isNearest_fraction (h : Digits digits) :
    Number.IsNearest x (numeral digits decimals) ↔
      x = Number.ofDigitText (digits ++ '.' :: decimals) := by
  rw [isNearest_numeral, Number.ofDigitText, takeWhile_isDigit_append h,
    dropWhile_isDigit_append h]
  simp

theorem matches_whole (h : Digits digits) :
    Matches digits (.token .number (.number (Number.ofDigitText digits))) :=
  .whole h ((isNearest_whole h).mpr rfl)

theorem matches_fraction (h : Digits digits) (h' : Digits decimals) :
    Matches (digits ++ '.' :: decimals)
      (.token .number (.number (Number.ofDigitText (digits ++ '.' :: decimals)))) :=
  .fraction h h' ((isNearest_fraction h).mpr rfl)

end

end LoxLang.Lexing

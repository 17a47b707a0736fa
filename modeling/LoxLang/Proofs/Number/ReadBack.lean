import LoxLang.Syntax.Listing
import LoxLang.Proofs.Lexing.Decomposition
import LoxLang.Proofs.Execution.Steps
import LoxLang.Proofs.Syntax.Leading
import LoxLang.Proofs.Number.Moderate

/-!
# Printed numbers read back

The text of a number of moderate size is one number token, and its literal is the number.
With a minus sign in front it is a unary operation, whose value is the opposite number.
-/

namespace LoxLang

open Lexeme Lexing Grammar

/-! ## Texts of one token -/

section

variable {text : List Char} {kind : TokenKind} {literal : Value}

theorem scan_token (h : Matches text (.token kind literal)) (hline : '\n' ∉ text) :
    scan (String.ofList text) =
      ⟨⟨[⟨kind, String.ofList text, literal, 1⟩], .ending 1⟩, []⟩ := by
  have hlines : newlines text = 0 := List.count_eq_zero.mpr hline
  simp [scan, h.ofText, withLines, token?, problem?, hlines]

theorem scan_minus_token (h : Matches text (.token kind literal)) (hline : '\n' ∉ text) :
    scan (String.ofList ('-' :: text)) =
      ⟨⟨[⟨.minus, "-", .nil, 1⟩, ⟨kind, String.ofList text, literal, 1⟩], .ending 1⟩, []⟩ := by
  have hlines : newlines text = 0 := List.count_eq_zero.mpr hline
  have hsign : newlines ['-'] = 0 := rfl
  have hwhole : newlines ('-' :: text) = 0 := List.count_eq_zero.mpr (by simp [hline])
  have hminus : ofText ('-' :: text) = ⟨['-'], .token .minus .nil⟩ :: ofText text := by
    rw [ofText, cut_punctuation rfl]
  simp [scan, hminus, h.ofText, withLines, token?, problem?, hlines, hsign, hwhole]

end

namespace Number

open Decimal Magnitude

variable {whole fraction : List Char} {x : Float}

theorem matches_digits (hwhole : AllDigits whole) (hnonempty : whole ≠ [])
    (hfraction : AllDigits fraction) :
    Matches (whole ++ pointed fraction)
      (.token .number (.number (ofDigitText (whole ++ pointed fraction)))) := by
  have hdigits : Digits whole := ⟨hnonempty, fun c hc => isDigit_iff.mp (hwhole c hc)⟩
  cases fraction with
  | nil =>
      simp only [pointed, List.isEmpty_nil, if_true, List.append_nil]
      exact matches_whole hdigits
  | cons c rest =>
      exact matches_fraction hdigits ⟨by simp, fun d hd => isDigit_iff.mp (hfraction d hd)⟩

theorem Moderate.matches_format (h : Moderate x) :
    Matches (format .short x) (.token .number (.number x)) := by
  obtain ⟨whole, fraction, htext, hwritten⟩ := h.exists_writtenAs
  have hliteral : ofDigitText (format .short x) = x := by
    rw [htext, ofDigitText_of_writtenAs hwritten, magnitude_sizeOf h.finite,
      toFloat_ofFloat h.positive]
  have hmatches := matches_digits hwritten.digits hwritten.nonempty hwritten.decimals
  rwa [← htext, hliteral] at hmatches

theorem Moderate.not_newline (h : Moderate x) : '\n' ∉ format .short x := by
  intro hmem
  have hnumeric := (format_numeric h.finite).1 _ hmem
  simp [IsNumeric] at hnumeric

/-! ## Reading back -/

def token (x : Float) : Token :=
  ⟨.number, (Value.number x).text, .number x, 1⟩

def minusToken : Token :=
  .bare .minus "-" 1

/-- The text of the number is scanned and parsed as the number, and is its listing again. -/
structure ReadsBack (x : Float) : Prop where
  scanned : scan (Value.number x).text = ⟨⟨[token x], .ending 1⟩, []⟩
  parsed : LeadingExpr.ofSource (Value.number x).text = ⟨some (.literal (.number x)), 1, []⟩
  listed : (Expr.literal (.number x)).listing = .ok (Value.number x).text

structure OppositeReadsBack (x : Float) : Prop where
  scanned : scan (Value.number (-x)).text = ⟨⟨[minusToken, token x], .ending 1⟩, []⟩
  parsed : LeadingExpr.ofSource (Value.number (-x)).text =
    ⟨some (.unary minusToken (.literal (.number x))), 2, []⟩
  evaluated : ∀ machine, (Expr.unary minusToken (.literal (.number x))).evaluate machine =
    .ok (.number (-x)) machine

theorem Moderate.readsBack (h : Moderate x) : ReadsBack x := by
  have hscanned := scan_token h.matches_format h.not_newline
  refine ⟨hscanned, ?_, rfl⟩
  have hparses : ParsesPhrase .unary [token x] (.literal (.number x)) [] := parses_operand rfl
  exact LeadingExpr.ofSource_unary hscanned hparses

theorem Moderate.oppositeReadsBack (h : Moderate x) : OppositeReadsBack x := by
  have htext : (Value.number (-x)).text = String.ofList ('-' :: format .short x) := by
    rw [Value.text, format_neg h.positive h.finite]
  have hscanned := scan_minus_token h.matches_format h.not_newline
  rw [← htext] at hscanned
  refine ⟨hscanned, ?_, ?_⟩
  · have hparses : ParsesPhrase .unary [minusToken, token x]
        (.unary minusToken (.literal (.number x))) [] :=
      parses_unary_iff.mpr (.inl ⟨by decide, _, parses_operand rfl, rfl⟩)
    exact LeadingExpr.ofSource_unary hscanned hparses
  · intro machine
    rw [Expr.evaluate_unary]
    rfl

/--
A number without a sign that is zero, or at least `1e-4` and less than `1e16`, is read back
from its text, and so is its opposite.
-/
theorem printed_numbers_read_back (h : Moderate x) : ReadsBack x ∧ OppositeReadsBack x :=
  ⟨h.readsBack, h.oppositeReadsBack⟩

theorem printed_numbers_read_back_hundred :
    Moderate 100 ∧
      scan "100" = ⟨⟨[⟨.number, "100", .number 100, 1⟩], .ending 1⟩, []⟩ ∧
      scan "-100" = ⟨⟨[minusToken, ⟨.number, "100", .number 100, 1⟩], .ending 1⟩, []⟩ := by
  have hmoderate : Moderate 100 := ⟨by decide +kernel, .inr (by decide +kernel)⟩
  have htext : (Value.number 100).text = "100" := by decide +kernel
  have hopposite : (Value.number (-100)).text = "-100" := by decide +kernel
  obtain ⟨hreads, hreads'⟩ := printed_numbers_read_back hmoderate
  have hscanned := hreads.scanned
  have hscanned' := hreads'.scanned
  rw [token, htext] at hscanned
  rw [token, htext, hopposite] at hscanned'
  exact ⟨hmoderate, hscanned, hscanned'⟩

end Number

end LoxLang

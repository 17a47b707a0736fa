import Mathlib.Data.List.TakeWhile
import Mathlib.Tactic.Ring
import LoxLang.Number.Text
import LoxLang.Proofs.Number.Nearest

/-!
# The texts of numbers

The text of a decimal is read back as a decimal of the same value, in every layout and
whatever zeros it is written with.  So the text of a finite number tells which one it is.
-/

namespace LoxLang

variable {whole fraction digits text : List Char}

/-! ## Digits -/

def AllDigits (text : List Char) : Prop :=
  ∀ c ∈ text, c.isDigit = true

theorem allDigits_append : AllDigits (whole ++ fraction) ↔ AllDigits whole ∧ AllDigits fraction :=
  List.forall_mem_append

theorem allDigits_replicate (n : Nat) : AllDigits (List.replicate n '0') := by
  intro c hc
  rw [List.eq_of_mem_replicate hc]
  rfl

theorem allDigits_toDigits (n : Nat) : AllDigits (Nat.toDigits 10 n) :=
  fun _ hc => Nat.isDigit_of_mem_toDigits (by omega) (by omega) hc

abbrev digitsValue (digits : List Char) : Nat :=
  Nat.ofDigitChars 10 digits 0

theorem digitsValue_append (front back : List Char) :
    digitsValue (front ++ back) = digitsValue front * 10 ^ back.length + digitsValue back := by
  rw [digitsValue, Nat.ofDigitChars_append, Nat.ofDigitChars_eq_ofDigitChars_zero, Nat.mul_comm]

theorem digitsValue_replicate (n : Nat) : digitsValue (List.replicate n '0') = 0 := by
  simp [digitsValue, Nat.ofDigitChars_replicate_zero]

namespace Decimal

/-! ## The digits that count -/

theorem exists_toDigits_eq (d : Decimal) :
    ∃ zeros, Nat.toDigits 10 d.coefficient = d.significant ++ List.replicate zeros '0' := by
  have hparts := List.takeWhile_append_dropWhile (p := (· = '0'))
    (l := (Nat.toDigits 10 d.coefficient).reverse)
  obtain ⟨zeros, hzeros⟩ : ∃ zeros, (Nat.toDigits 10 d.coefficient).reverse.takeWhile (· = '0') =
      List.replicate zeros '0' :=
    ⟨_, List.eq_replicate_of_mem fun c hc => by simpa using List.mem_takeWhile_imp hc⟩
  have hdigits := congrArg List.reverse hparts
  rw [List.reverse_append, List.reverse_reverse, hzeros, List.reverse_replicate] at hdigits
  exact ⟨zeros, hdigits.symm⟩

theorem allDigits_significant (d : Decimal) : AllDigits d.significant := by
  obtain ⟨zeros, hdigits⟩ := d.exists_toDigits_eq
  have hall := allDigits_toDigits d.coefficient
  rw [hdigits, allDigits_append] at hall
  exact hall.1

theorem value_eq_significant (d : Decimal) :
    d.value = digitsValue d.significant * 10 ^ (d.point - d.significant.length) := by
  obtain ⟨zeros, hdigits⟩ := d.exists_toDigits_eq
  have hcoefficient : d.coefficient = digitsValue d.significant * 10 ^ zeros := by
    have hvalue : digitsValue (Nat.toDigits 10 d.coefficient) = d.coefficient :=
      Nat.ofDigitChars_ten_toDigits
    rw [hdigits, digitsValue_append, digitsValue_replicate] at hvalue
    simpa using hvalue.symm
  have hpoint : d.point - d.significant.length = zeros + d.exponent := by
    simp only [point, hdigits, List.length_append, List.length_replicate]
    omega
  rw [hpoint, value, hcoefficient, zpow_add₀ (by norm_num), zpow_natCast]
  push_cast
  ring

/-! ## Plain texts and texts with an exponent -/

def pointed (fraction : List Char) : List Char :=
  if fraction.isEmpty then [] else '.' :: fraction

/-- A number is written in these digits with the point between them. -/
structure WrittenAs (d : Decimal) (whole fraction : List Char) : Prop where
  digits : AllDigits whole
  nonempty : whole ≠ []
  decimals : AllDigits fraction
  same : (ofDigits whole fraction).value = d.value

theorem value_ofDigits (whole fraction : List Char) :
    (ofDigits whole fraction).value =
      digitsValue (whole ++ fraction) * 10 ^ (-(fraction.length : ℤ)) :=
  rfl

section

variable {d : Decimal}

theorem WrittenAs.exists_pointed (h : WrittenAs d whole fraction) (keepsPoint : Bool) :
    ∃ shown, (if fraction.isEmpty then if keepsPoint then whole ++ ['.', '0'] else whole
        else whole ++ '.' :: fraction) = whole ++ pointed shown ∧ WrittenAs d whole shown := by
  cases fraction with
  | cons c rest => exact ⟨c :: rest, by simp [pointed], h⟩
  | nil =>
      cases keepsPoint with
      | false => exact ⟨[], by simp [pointed], h⟩
      | true =>
          refine ⟨['0'], by simp [pointed], h.digits, h.nonempty, allDigits_replicate 1, ?_⟩
          have hzero : digitsValue ['0'] = 0 := digitsValue_replicate 1
          rw [← h.same, value_ofDigits, value_ofDigits, digitsValue_append, hzero]
          simp

theorem writtenAs_small (h : d.point ≤ 0) :
    WrittenAs d ['0'] (List.replicate (-d.point).toNat '0' ++ d.significant) := by
  refine ⟨allDigits_replicate 1, by simp,
    allDigits_append.mpr ⟨allDigits_replicate _, d.allDigits_significant⟩, ?_⟩
  have hzeros : ['0'] ++ (List.replicate (-d.point).toNat '0' ++ d.significant) =
      List.replicate ((-d.point).toNat + 1) '0' ++ d.significant := by
    simp [List.replicate_succ]
  have hexponent : -((-d.point).toNat + d.significant.length : ℤ) =
      d.point - d.significant.length := by
    omega
  rw [value_ofDigits, hzeros, digitsValue_append, digitsValue_replicate, d.value_eq_significant,
    List.length_append, List.length_replicate]
  push_cast
  rw [hexponent]
  simp

theorem writtenAs_large (h : 0 < d.point) :
    WrittenAs d (d.significant.take d.point.toNat ++
        List.replicate (d.point.toNat - d.significant.length) '0')
      (d.significant.drop d.point.toNat) := by
  have hall := d.allDigits_significant
  refine ⟨allDigits_append.mpr ⟨fun c hc => hall c (List.mem_of_mem_take hc),
    allDigits_replicate _⟩, ?_, fun c hc => hall c (List.mem_of_mem_drop hc), ?_⟩
  · intro hempty
    have hlength := congrArg List.length hempty
    simp only [List.length_append, List.length_take, List.length_replicate, List.length_nil]
      at hlength
    omega
  · rw [value_ofDigits, d.value_eq_significant, List.length_drop]
    by_cases hlong : d.significant.length ≤ d.point.toNat
    · have hexponent : d.point - d.significant.length =
          ((d.point.toNat - d.significant.length : Nat) : ℤ) := by
        omega
      have hnone : d.significant.length - d.point.toNat = 0 := by omega
      rw [List.take_of_length_le hlong, List.drop_eq_nil_of_le hlong, List.append_nil,
        digitsValue_append, digitsValue_replicate, List.length_replicate, hexponent, hnone]
      simp
    · have hexponent : -((d.significant.length - d.point.toNat : Nat) : ℤ) =
          d.point - d.significant.length := by
        omega
      have hnone : d.point.toNat - d.significant.length = 0 := by omega
      rw [hnone, hexponent]
      simp

def exponentText (exponentDigits : Nat) (exponent : Int) : List Char :=
  (if exponent < 0 then '-' else '+') ::
    List.replicate (exponentDigits - (Nat.toDigits 10 exponent.natAbs).length) '0' ++
      Nat.toDigits 10 exponent.natAbs

/-- The texts of a decimal, in any layout. -/
inductive Writes (d : Decimal) : List Char → Prop
  | plain {whole fraction : List Char} :
      WrittenAs d whole fraction → Writes d (whole ++ pointed fraction)
  | scientific {whole fraction : List Char} {exponentDigits exponent} :
      AllDigits whole → AllDigits fraction → (d.value ≠ 0 → whole ≠ []) →
      (ofDigits whole fraction).value * 10 ^ exponent = d.value →
      Writes d (whole ++ pointed fraction ++ 'e' :: exponentText exponentDigits exponent)

theorem exists_writtenAs (d : Decimal) (keepsPoint : Bool) : ∃ whole shown,
    plain keepsPoint d.significant d.point = whole ++ pointed shown ∧ WrittenAs d whole shown := by
  unfold plain
  by_cases h : d.point ≤ 0
  · simp only [if_pos h]
    exact ⟨_, (writtenAs_small h).exists_pointed keepsPoint⟩
  · simp only [if_neg h]
    exact ⟨_, (writtenAs_large (Int.not_le.mp h)).exists_pointed keepsPoint⟩

theorem writes_plain (d : Decimal) (keepsPoint : Bool) :
    Writes d (plain keepsPoint d.significant d.point) := by
  obtain ⟨whole, shown, htext, hwritten⟩ := d.exists_writtenAs keepsPoint
  rw [htext]
  exact .plain hwritten

theorem writes_scientific (d : Decimal) (exponentDigits : Nat) :
    Writes d (scientific exponentDigits d.significant (d.point - 1)) := by
  have hall := d.allDigits_significant
  have hvalue := d.value_eq_significant
  have htext : scientific exponentDigits d.significant (d.point - 1) =
      d.significant.take 1 ++ pointed (d.significant.drop 1) ++
        'e' :: exponentText exponentDigits (d.point - 1) := by
    simp only [scientific, pointed, exponentText, List.isEmpty_iff, List.drop_eq_nil_iff,
      List.append_assoc, List.cons_append]
  rw [htext]
  refine .scientific (fun c hc => hall c (List.mem_of_mem_take hc))
    (fun c hc => hall c (List.mem_of_mem_drop hc)) ?_ ?_
  · intro hne hempty
    cases hdigits : d.significant with
    | nil => simp [hvalue, hdigits, digitsValue] at hne
    | cons c rest => simp [hdigits] at hempty
  · rw [value_ofDigits, hvalue, List.take_append_drop, List.length_drop, mul_assoc,
      ← zpow_add₀ (by norm_num)]
    cases hdigits : d.significant with
    | nil => simp [digitsValue]
    | cons c rest =>
        have hexponent : -(((c :: rest).length - 1 : Nat) : ℤ) + (d.point - 1) =
            d.point - (c :: rest).length := by
          simp only [List.length_cons, Nat.add_sub_cancel]
          omega
        rw [hexponent]

theorem writes_format (d : Decimal) (style : NumberFormat) : Writes d (d.format style) := by
  unfold Decimal.format
  dsimp only
  split
  · exact d.writes_plain style.keepsPoint
  · exact d.writes_scientific style.exponentDigits

def IsNumeric (c : Char) : Prop :=
  c.isDigit = true ∨ c ∈ ['.', 'e', '+', '-']

theorem numeric_of_digits (h : AllDigits digits) : ∀ c ∈ digits, IsNumeric c :=
  fun c hc => .inl (h c hc)

theorem pointed_numeric (h : AllDigits fraction) : ∀ c ∈ pointed fraction, IsNumeric c := by
  cases fraction with
  | nil => simp [pointed]
  | cons c rest =>
      simp only [pointed, List.isEmpty_cons, Bool.false_eq_true, if_false, List.forall_mem_cons]
      exact ⟨.inr (by simp), .inl (h c (by simp)), fun c hc => .inl (h c (by simp [hc]))⟩

theorem exponentText_numeric (exponentDigits : Nat) (exponent : Int) :
    ∀ c ∈ exponentText exponentDigits exponent, IsNumeric c := by
  simp only [exponentText, List.cons_append, List.forall_mem_cons, List.forall_mem_append]
  refine ⟨.inr ?_, numeric_of_digits (allDigits_replicate _),
    numeric_of_digits (allDigits_toDigits _)⟩
  split <;> simp

theorem Writes.numeric (h : Writes d text) : ∀ c ∈ text, IsNumeric c := by
  cases h with
  | plain h =>
      exact List.forall_mem_append.mpr ⟨numeric_of_digits h.digits, pointed_numeric h.decimals⟩
  | scientific hwhole hfraction =>
      simp only [List.forall_mem_append, List.forall_mem_cons]
      exact ⟨⟨numeric_of_digits hwhole, pointed_numeric hfraction⟩, .inr (by simp),
        exponentText_numeric _ _⟩

theorem Writes.exists_digit (h : Writes d text) (hne : d.value ≠ 0) :
    ∃ c rest, text = c :: rest ∧ c.isDigit = true := by
  have hcons {whole : List Char} (hwhole : AllDigits whole) (hne : whole ≠ []) (rest : List Char) :
      ∃ c more, whole ++ rest = c :: more ∧ c.isDigit = true := by
    obtain ⟨c, more, rfl⟩ := List.exists_cons_of_ne_nil hne
    exact ⟨c, more ++ rest, rfl, hwhole c (by simp)⟩
  cases h with
  | plain h => exact hcons h.digits h.nonempty _
  | scientific hwhole _ hnonempty _ =>
      rw [List.append_assoc]
      exact hcons hwhole (hnonempty hne) _

end

end Decimal

namespace Number

open Decimal

/-! ## Reading -/

theorem cut_digits (h : AllDigits digits) (rest : List Char)
    (hrest : ∀ c ∈ rest.head?, c.isDigit = false) :
    (digits ++ rest).takeWhile Char.isDigit = digits ∧
      (digits ++ rest).dropWhile Char.isDigit = rest := by
  rw [List.takeWhile_append_of_pos h, List.dropWhile_append_of_pos h]
  cases rest with
  | nil => simp
  | cons c rest => simp [hrest c rfl]

theorem cut_all_digits (h : AllDigits digits) :
    digits.takeWhile Char.isDigit = digits ∧ digits.dropWhile Char.isDigit = [] := by
  simpa using cut_digits h [] (by simp)

theorem readDecimal?_of_digits (hwhole : AllDigits whole) (hnonempty : whole ≠ [])
    (hfraction : AllDigits fraction) :
    readDecimal? (whole ++ pointed fraction) = some (ofDigits whole fraction) := by
  cases fraction with
  | nil => simp [readDecimal?, pointed, cut_all_digits hwhole, hnonempty]
  | cons c rest =>
      have hcut := cut_digits hwhole ('.' :: c :: rest) (by simp)
      simp only [readDecimal?, pointed, List.isEmpty_cons, Bool.false_eq_true, if_false, hcut,
        cut_all_digits hfraction]
      simp [hnonempty]

theorem readDecimal?_of_exponent (hwhole : AllDigits whole) (hfraction : AllDigits fraction)
    (exponent : List Char) :
    readDecimal? (whole ++ pointed fraction ++ 'e' :: exponent) =
      (readExponent? exponent).map fun shift =>
        ⟨(ofDigits whole fraction).coefficient, (ofDigits whole fraction).exponent + shift⟩ := by
  rw [List.append_assoc]
  cases fraction with
  | nil =>
      have hcut := cut_digits hwhole ('e' :: exponent) (by simp)
      simp only [readDecimal?, pointed, List.isEmpty_nil, if_true, List.nil_append, hcut]
      rfl
  | cons c rest =>
      have hcut := cut_digits hwhole ('.' :: (c :: rest ++ 'e' :: exponent)) (by simp)
      have hcut' := cut_digits hfraction ('e' :: exponent) (by simp)
      simp only [readDecimal?, pointed, List.isEmpty_cons, Bool.false_eq_true, if_false,
        List.cons_append] at hcut hcut' ⊢
      simp only [hcut, hcut']

theorem readExponent?_exponentText (exponentDigits : Nat) (exponent : Int) :
    readExponent? (exponentText exponentDigits exponent) = some exponent := by
  unfold exponentText
  generalize exponentDigits - _ = zeros
  have hall : AllDigits (List.replicate zeros '0' ++ Nat.toDigits 10 exponent.natAbs) :=
    allDigits_append.mpr ⟨allDigits_replicate _, allDigits_toDigits _⟩
  have hvalue : digitsValue (List.replicate zeros '0' ++ Nat.toDigits 10 exponent.natAbs) =
      exponent.natAbs := by
    rw [digitsValue_append, digitsValue_replicate, Nat.zero_mul, Nat.zero_add]
    exact Nat.ofDigitChars_ten_toDigits
  rw [List.cons_append]
  split
  · simp only [readExponent?, List.all_eq_true.mpr hall, if_true, hvalue, Option.some.injEq]
    omega
  · simp only [readExponent?, List.all_eq_true.mpr hall, if_true, hvalue, Option.some.injEq]
    omega

/-- Every text of a decimal is read as a decimal of its value. -/
theorem exists_readDecimal? {d : Decimal} (h : Writes d text) :
    ∃ read, readDecimal? text = some read ∧ read.value = d.value := by
  cases h with
  | plain h => exact ⟨_, readDecimal?_of_digits h.digits h.nonempty h.decimals, h.same⟩
  | scientific hwhole hfraction _ hvalue =>
      rw [readDecimal?_of_exponent hwhole hfraction, readExponent?_exponentText]
      refine ⟨_, rfl, ?_⟩
      rw [← hvalue]
      simp only [Decimal.value]
      rw [zpow_add₀ (by norm_num), mul_assoc]

/-! ## Numbers with their signs -/

def sizeOf (code : Nat) : Decimal :=
  if code = 0 then ⟨0, 0⟩ else .shortest code

theorem magnitude_sizeOf {code : Nat} (h : code < Magnitude.infinity) :
    (sizeOf code).magnitude = code := by
  unfold sizeOf
  split
  · next hzero => rw [Decimal.magnitude_of_zero (by simp [Decimal.value]), hzero]
  · exact Decimal.magnitude_shortest h

theorem format_of_finite (style : NumberFormat) {x : Float}
    (h : Magnitude.ofFloat x < Magnitude.infinity) :
    format style x = (if Magnitude.isNegative x then ['-'] else []) ++
      (sizeOf (Magnitude.ofFloat x)).format style := by
  have hne : Magnitude.ofFloat x ≠ Magnitude.infinity := by omega
  have hle : ¬Magnitude.infinity < Magnitude.ofFloat x := by omega
  unfold format
  dsimp only
  rw [if_neg hne, if_neg hle]
  cases Magnitude.isNegative x <;> rfl

theorem readDecimal?_sizeOf (style : NumberFormat) {code : Nat} (h : code < Magnitude.infinity) :
    (readDecimal? ((sizeOf code).format style)).map Decimal.magnitude = some code := by
  obtain ⟨read, hread, hvalue⟩ := exists_readDecimal? ((sizeOf code).writes_format style)
  rw [hread, Option.map_some, Decimal.magnitude_congr hvalue, magnitude_sizeOf h]

theorem exists_digit_sizeOf {code : Nat} (h : code < Magnitude.infinity) :
    ∃ c rest, (sizeOf code).format .short = c :: rest ∧ c.isDigit = true := by
  by_cases hzero : code = 0
  · subst hzero
    exact ⟨'0', [], by decide, by decide⟩
  · refine ((sizeOf code).writes_format .short).exists_digit fun hvalue => hzero ?_
    rw [← magnitude_sizeOf h, Decimal.magnitude_of_zero hvalue]

theorem float_eq {x y : Float} (hcode : Magnitude.ofFloat x = Magnitude.ofFloat y)
    (hsign : Magnitude.isNegative x = Magnitude.isNegative y) : x = y := by
  have hbits : x.toBits = y.toBits := by
    have := x.toBits.toNat_lt
    have := y.toBits.toNat_lt
    simp only [Magnitude.ofFloat, Magnitude.isNegative, decide_eq_decide, Nat.pow_eq] at hcode hsign
    exact UInt64.toNat_inj.mp (by omega)
  obtain ⟨⟨bits, valid⟩⟩ := x
  obtain ⟨⟨bits', valid'⟩⟩ := y
  obtain rfl : bits = bits' := hbits
  rfl

theorem signed_injective {c c' : Char} {rest rest' : List Char} (hc : c.isDigit = true)
    (hc' : c'.isDigit = true) {negative negative' : Bool}
    (h : (if negative then ['-'] else []) ++ c :: rest =
      (if negative' then ['-'] else []) ++ c' :: rest') :
    negative = negative' ∧ c :: rest = c' :: rest' := by
  cases negative <;> cases negative'
  · exact ⟨rfl, h⟩
  · obtain ⟨rfl, -⟩ := List.cons.inj h
    cases hc
  · obtain ⟨rfl, -⟩ := List.cons.inj h
    cases hc'
  · exact ⟨rfl, (List.cons.inj h).2⟩

theorem format_injective {x y : Float} (hx : Magnitude.ofFloat x < Magnitude.infinity)
    (hy : Magnitude.ofFloat y < Magnitude.infinity) (h : format .short x = format .short y) :
    x = y := by
  obtain ⟨c, rest, htext, hdigit⟩ := exists_digit_sizeOf hx
  obtain ⟨c', rest', htext', hdigit'⟩ := exists_digit_sizeOf hy
  rw [format_of_finite _ hx, format_of_finite _ hy, htext, htext'] at h
  obtain ⟨hsign, hsize⟩ := signed_injective hdigit hdigit' h
  rw [← htext, ← htext'] at hsize
  have hread := readDecimal?_sizeOf .short hx
  rw [hsize, readDecimal?_sizeOf .short hy] at hread
  exact float_eq (Option.some.inj hread).symm hsign

theorem format_numeric {x : Float} (h : Magnitude.ofFloat x < Magnitude.infinity) :
    (∀ c ∈ format .short x, IsNumeric c) ∧
      ∃ c rest, format .short x = c :: rest ∧ (c.isDigit = true ∨ c = '-') := by
  obtain ⟨c, rest, htext, hdigit⟩ := exists_digit_sizeOf h
  have hnumeric := ((sizeOf (Magnitude.ofFloat x)).writes_format .short).numeric
  rw [format_of_finite _ h]
  cases Magnitude.isNegative x with
  | false => exact ⟨hnumeric, c, rest, htext, .inl hdigit⟩
  | true => exact ⟨List.forall_mem_cons.mpr ⟨.inr (by simp), hnumeric⟩, '-', _, rfl, .inr rfl⟩

end Number

end LoxLang

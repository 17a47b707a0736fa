import LoxLang.Text.Utf8

/-!
# Texts and their bytes

Reading bytes as a text and writing a text as bytes undo each other, so the bytes that
are read without a mistake are those of some text and of one only.
-/

namespace LoxLang.Utf8

/-! ## The bytes of a text -/

theorem toList_loop (bytes : ByteArray) (i : Nat) (read : List UInt8) :
    ByteArray.toList.loop bytes i read = read.reverse ++ bytes.data.toList.drop i := by
  fun_induction ByteArray.toList.loop bytes i read with
  | case1 i read h ih =>
      have hlength : i < bytes.data.toList.length := by simpa using h
      rw [ih, List.drop_eq_getElem_cons hlength]
      simp [ByteArray.get!, h]
  | case2 i read h =>
      rw [List.drop_eq_nil_of_le (by simpa using h)]
      simp

theorem encode_ofList (text : List Char) :
    encode (String.ofList text) = text.flatMap String.utf8EncodeChar := by
  simp [encode, ByteArray.toList, toList_loop, String.toByteArray_ofList, List.utf8Encode]

/-! ## One character -/

/-- The bytes of a code, by their number; codes of surrogates have none. -/
inductive Sequence : UInt8 → List UInt8 → Nat → Prop
  | one {a : UInt8} {code : Nat} : a.toNat = code → code < 0x80 → Sequence a [] code
  | two {a b : UInt8} {code : Nat} :
      a.toNat = 0xC0 + code / 64 → b.toNat = 0x80 + code % 64 →
      0x80 ≤ code → code < 0x800 → Sequence a [b] code
  | three {a b c : UInt8} {code : Nat} :
      a.toNat = 0xE0 + code / 4096 → b.toNat = 0x80 + code / 64 % 64 →
      c.toNat = 0x80 + code % 64 → 0x800 ≤ code → code < 0x10000 →
      (code < 0xD800 ∨ 0xE000 ≤ code) → Sequence a [b, c] code
  | four {a b c d : UInt8} {code : Nat} :
      a.toNat = 0xF0 + code / 262144 → b.toNat = 0x80 + code / 4096 % 64 →
      c.toNat = 0x80 + code / 64 % 64 → d.toNat = 0x80 + code % 64 →
      0x10000 ≤ code → code < 0x110000 → Sequence a [b, c, d] code

theorem Sequence.isValidChar {byte : UInt8} {bytes : List UInt8} {code : Nat}
    (h : Sequence byte bytes code) : code.isValidChar := by
  cases h <;> simp only [Nat.isValidChar] <;> omega

theorem encodeChar_sequence (c : Char) :
    ∃ byte bytes, String.utf8EncodeChar c = byte :: bytes ∧ Sequence byte bytes c.toNat := by
  have hvalid := c.valid
  simp only [UInt32.isValidChar, Nat.isValidChar] at hvalid
  unfold String.utf8EncodeChar Char.toNat
  generalize c.val.toNat = code at hvalid ⊢
  dsimp only
  split
  next => exact ⟨_, _, rfl, .one (by simp; omega) (by omega)⟩
  next =>
    split
    next => exact ⟨_, _, rfl, .two (by simp; omega) (by simp; omega) (by omega) (by omega)⟩
    next =>
      split
      next =>
        exact ⟨_, _, rfl, .three (by simp; omega) (by simp; omega) (by simp; omega) (by omega)
          (by omega) (by omega)⟩
      next =>
        exact ⟨_, _, rfl, .four (by simp; omega) (by simp; omega) (by simp; omega) (by simp; omega)
          (by omega) (by omega)⟩

theorem Sequence.unique {a a' : UInt8} {bytes bytes' : List UInt8} {code : Nat}
    (h : Sequence a bytes code) (h' : Sequence a' bytes' code) : a :: bytes = a' :: bytes' := by
  cases h <;> cases h' <;> first
    | omega
    | simp only [List.cons.injEq, ← UInt8.toNat_inj, and_true]; omega

theorem Sequence.eq_encodeChar {byte : UInt8} {bytes : List UInt8} {code : Nat}
    (h : Sequence byte bytes code) : byte :: bytes = String.utf8EncodeChar (Char.ofNat code) := by
  obtain ⟨byte', bytes', hbytes, h'⟩ := encodeChar_sequence (Char.ofNat code)
  have hcode : (Char.ofNat code).toNat = code := by
    rw [Char.ofNat, dif_pos h.isValidChar]
    rfl
  rw [hcode] at h'
  rw [hbytes]
  exact h.unique h'

/-! ## Reading a character -/

theorem followers?_eq_some_iff {byte : UInt8} {ranges : List (UInt8 × UInt8)} :
    followers? byte = some ranges ↔
      byte.toNat < 0x80 ∧ ranges = [] ∨
      (0xC2 ≤ byte.toNat ∧ byte.toNat < 0xE0) ∧ ranges = [(0x80, 0xBF)] ∨
      byte.toNat = 0xE0 ∧ ranges = [(0xA0, 0xBF), (0x80, 0xBF)] ∨
      (0xE0 < byte.toNat ∧ byte.toNat < 0xF0 ∧ byte.toNat ≠ 0xED) ∧
        ranges = [(0x80, 0xBF), (0x80, 0xBF)] ∨
      byte.toNat = 0xED ∧ ranges = [(0x80, 0x9F), (0x80, 0xBF)] ∨
      byte.toNat = 0xF0 ∧ ranges = [(0x90, 0xBF), (0x80, 0xBF), (0x80, 0xBF)] ∨
      (0xF0 < byte.toNat ∧ byte.toNat < 0xF4) ∧
        ranges = [(0x80, 0xBF), (0x80, 0xBF), (0x80, 0xBF)] ∨
      byte.toNat = 0xF4 ∧ ranges = [(0x80, 0x8F), (0x80, 0xBF), (0x80, 0xBF)] := by
  unfold followers?
  simp only [UInt8.lt_iff_toNat_lt, ← UInt8.toNat_inj]
  simp only [UInt8.reduceToNat]
  grind

theorem followers?_eq_none_iff {byte : UInt8} :
    followers? byte = none ↔ 0x80 ≤ byte.toNat ∧ byte.toNat < 0xC2 ∨ 0xF4 < byte.toNat := by
  unfold followers?
  simp only [UInt8.lt_iff_toNat_lt, ← UInt8.toNat_inj]
  simp only [UInt8.reduceToNat]
  grind

theorem leadingBits_of_followers {byte : UInt8} {ranges : List (UInt8 × UInt8)}
    (h : followers? byte = some ranges) :
    leadingBits byte = byte.toNat - [0, 0xC0, 0xE0, 0xF0].getD ranges.length 0 := by
  unfold leadingBits
  simp only [UInt8.lt_iff_toNat_lt, UInt8.reduceToNat]
  rcases followers?_eq_some_iff.mp h with ⟨h, rfl⟩ | ⟨h, rfl⟩ | ⟨h, rfl⟩ | ⟨h, rfl⟩ |
      ⟨h, rfl⟩ | ⟨h, rfl⟩ | ⟨h, rfl⟩ | ⟨h, rfl⟩ <;>
    simp only [List.length_nil, List.length_cons, List.getD_cons_zero, List.getD_cons_succ] <;>
    grind

theorem readFollowers_nil_iff {read code code' : Nat} {bytes rest : List UInt8} :
    readFollowers [] read code bytes = .ok (code', rest) ↔ code' = code ∧ rest = bytes := by
  simp [readFollowers, eq_comm]

theorem readFollowers_cons_iff {low high : UInt8} {ranges : List (UInt8 × UInt8)}
    {read code code' : Nat} {bytes rest : List UInt8} :
    readFollowers ((low, high) :: ranges) read code bytes = .ok (code', rest) ↔
      ∃ byte more, bytes = byte :: more ∧ (low.toNat ≤ byte.toNat ∧ byte.toNat ≤ high.toNat) ∧
        readFollowers ranges (read + 1) (code * 64 + (byte.toNat - 0x80)) more =
          .ok (code', rest) := by
  cases bytes with
  | nil => simp [readFollowers]
  | cons byte more =>
      simp only [readFollowers, UInt8.le_iff_toNat_le, List.cons.injEq]
      split
      next h =>
        constructor
        · exact fun hread => ⟨byte, more, ⟨rfl, rfl⟩, h, hread⟩
        · rintro ⟨_, _, ⟨rfl, rfl⟩, -, hread⟩
          exact hread
      next h =>
        constructor
        · intro hread
          cases hread
        · rintro ⟨_, _, ⟨rfl, rfl⟩, hrange, -⟩
          exact absurd hrange h

theorem sequence_of_read {byte : UInt8} {bytes rest : List UInt8} {code : Nat}
    {ranges : List (UInt8 × UInt8)} (hfollow : followers? byte = some ranges)
    (hread : readFollowers ranges 1 (leadingBits byte) bytes = .ok (code, rest)) :
    ∃ front, bytes = front ++ rest ∧ Sequence byte front code := by
  rw [leadingBits_of_followers hfollow] at hread
  rcases followers?_eq_some_iff.mp hfollow with ⟨h, rfl⟩ | ⟨h, rfl⟩ | ⟨h, rfl⟩ | ⟨h, rfl⟩ |
    ⟨h, rfl⟩ | ⟨h, rfl⟩ | ⟨h, rfl⟩ | ⟨h, rfl⟩ <;>
    simp only [readFollowers_cons_iff, readFollowers_nil_iff, UInt8.reduceToNat, List.length_nil,
      List.length_cons, List.getD_cons_zero, List.getD_cons_succ, Nat.zero_add] at hread
  · obtain ⟨hcode, rfl⟩ := hread
    exact ⟨[], rfl, .one (by omega) (by omega)⟩
  · obtain ⟨b, _, rfl, hb, hcode, rfl⟩ := hread
    exact ⟨[b], rfl, .two (by omega) (by omega) (by omega) (by omega)⟩
  -- The range of the second byte alone tells the forms of three bytes apart, and those of four.
  iterate 3
    next =>
      obtain ⟨b, _, rfl, hb, c, _, rfl, hc, hcode, rfl⟩ := hread
      exact ⟨[b, c], rfl, .three (by omega) (by omega) (by omega) (by omega) (by omega) (by omega)⟩
  iterate 3
    next =>
      obtain ⟨b, _, rfl, hb, c, _, rfl, hc, d, _, rfl, hd, hcode, rfl⟩ := hread
      exact ⟨[b, c, d], rfl, .four (by omega) (by omega) (by omega) (by omega) (by omega) (by omega)⟩

theorem Sequence.exists_followers {byte : UInt8} {bytes : List UInt8} {code : Nat}
    (h : Sequence byte bytes code) : ∃ ranges, followers? byte = some ranges := by
  cases hfollow : followers? byte with
  | some ranges => exact ⟨ranges, rfl⟩
  | none =>
      rw [followers?_eq_none_iff] at hfollow
      cases h <;> omega

theorem Sequence.read {byte : UInt8} {bytes : List UInt8} {code : Nat}
    (h : Sequence byte bytes code) (rest : List UInt8) {ranges : List (UInt8 × UInt8)}
    (hfollow : followers? byte = some ranges) :
    readFollowers ranges 1 (leadingBits byte) (bytes ++ rest) = .ok (code, rest) ∧
      bytes.length = ranges.length := by
  rw [leadingBits_of_followers hfollow]
  rcases followers?_eq_some_iff.mp hfollow with ⟨h', rfl⟩ | ⟨h', rfl⟩ | ⟨h', rfl⟩ | ⟨h', rfl⟩ |
    ⟨h', rfl⟩ | ⟨h', rfl⟩ | ⟨h', rfl⟩ | ⟨h', rfl⟩ <;>
    simp only [readFollowers_cons_iff, readFollowers_nil_iff, UInt8.reduceToNat, List.length_nil,
      List.length_cons, List.getD_cons_zero, List.getD_cons_succ, Nat.zero_add]
  · cases h with
    | one _ _ => exact ⟨⟨by omega, rfl⟩, rfl⟩
    | _ => omega
  · cases h with
    | two _ _ _ _ => exact ⟨⟨_, _, rfl, by omega, by omega, rfl⟩, rfl⟩
    | _ => omega
  iterate 3
    next =>
      cases h with
      | three _ _ _ _ _ _ => exact ⟨⟨_, _, rfl, by omega, _, _, rfl, by omega, by omega, rfl⟩, rfl⟩
      | _ => omega
  iterate 3
    next =>
      cases h with
      | four _ _ _ _ _ _ =>
          exact ⟨⟨_, _, rfl, by omega, _, _, rfl, by omega, _, _, rfl, by omega, by omega, rfl⟩, rfl⟩
      | _ => omega

/-! ## Texts -/

theorem decodeFrom_append {byte : UInt8} {bytes : List UInt8} {code : Nat}
    (h : Sequence byte bytes code) (position : Nat) (rest : List UInt8) :
    decodeFrom position (byte :: bytes ++ rest) =
      (decodeFrom (position + bytes.length + 1) rest).map (Char.ofNat code :: ·) := by
  obtain ⟨ranges, hfollow⟩ := h.exists_followers
  obtain ⟨hread, hlength⟩ := h.read rest hfollow
  rw [List.cons_append, decodeFrom, hfollow]
  dsimp only
  split
  next _ _ hother =>
    rw [hread] at hother
    cases hother
  next _ _ hother =>
    rw [hread] at hother
    cases hother
    rw [hlength]

theorem decodeFrom_encodeChars (position : Nat) (text : List Char) :
    decodeFrom position (text.flatMap String.utf8EncodeChar) = .ok text := by
  induction text generalizing position with
  | nil => rw [List.flatMap_nil, decodeFrom]
  | cons c rest ih =>
      obtain ⟨byte, bytes, hbytes, hsequence⟩ := encodeChar_sequence c
      rw [List.flatMap_cons, hbytes, decodeFrom_append hsequence, ih, Char.ofNat_toNat]
      rfl

theorem eq_encodeChars_of_decodeFrom {position : Nat} {bytes : List UInt8} {text : List Char}
    (h : decodeFrom position bytes = .ok text) : bytes = text.flatMap String.utf8EncodeChar := by
  fun_induction decodeFrom position bytes generalizing text with
  | case1 position =>
      cases h
      rfl
  | case2 => cases h
  | case3 => cases h
  | case4 position byte bytes ranges hfollow code rest hread ih =>
      cases hrest : decodeFrom (position + ranges.length + 1) rest with
      | error error =>
          rw [hrest] at h
          cases h
      | ok more =>
          rw [hrest] at h
          cases h
          obtain ⟨front, rfl, hsequence⟩ := sequence_of_read hfollow hread
          rw [List.flatMap_cons, ← ih hrest, ← hsequence.eq_encodeChar, List.cons_append]

/-- The bytes that are read as a text are the bytes of that text. -/
theorem decode_eq_ok_iff {bytes : List UInt8} {text : List Char} :
    decode bytes = .ok text ↔ encode (String.ofList text) = bytes := by
  rw [decode, encode_ofList]
  constructor
  · exact fun h => (eq_encodeChars_of_decodeFrom h).symm
  · rintro rfl
    exact decodeFrom_encodeChars 0 text

end LoxLang.Utf8

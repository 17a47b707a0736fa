/-!
Reading UTF-8, with the place and the reason of the first mistake.

A first byte fixes how many bytes follow and in which range each of them lies;
the range of the second byte is narrower after some, so that no character has two
forms and none is a surrogate.
-/

namespace LoxLang

inductive Utf8Error.Reason where
  | startByte
  | endOfData
  | continuationByte
  deriving DecidableEq, Repr, Inhabited

/-- A mistake: the bytes that are no character, by place and count, and why. -/
structure Utf8Error where
  firstByte : UInt8
  position : Nat
  length : Nat
  reason : Utf8Error.Reason
  deriving DecidableEq, Repr, Inhabited

namespace Utf8Error

def Reason.text : Reason → String
  | startByte => "invalid start byte"
  | endOfData => "unexpected end of data"
  | continuationByte => "invalid continuation byte"

def hexByte (byte : UInt8) : String :=
  let digits := Nat.toDigits 16 byte.toNat
  String.ofList (List.replicate (2 - digits.length) '0' ++ digits)

def message (error : Utf8Error) : String :=
  let place := toString error.position
  let bytes :=
    if error.length = 1 then "byte 0x" ++ hexByte error.firstByte ++ " in position " ++ place
    else "bytes in position " ++ place ++ "-" ++ toString (error.position + error.length - 1)
  "'utf-8' codec can't decode " ++ bytes ++ ": " ++ error.reason.text

end Utf8Error

namespace Utf8

/-- The range of every byte that follows a first byte, if that is one. -/
def followers? (byte : UInt8) : Option (List (UInt8 × UInt8)) :=
  let tail : UInt8 × UInt8 := (0x80, 0xBF)
  if byte < 0x80 then some []
  else if byte < 0xC2 then none
  else if byte < 0xE0 then some [tail]
  else if byte = 0xE0 then some [(0xA0, 0xBF), tail]
  else if byte = 0xED then some [(0x80, 0x9F), tail]
  else if byte < 0xF0 then some [tail, tail]
  else if byte = 0xF0 then some [(0x90, 0xBF), tail, tail]
  else if byte < 0xF4 then some [tail, tail, tail]
  else if byte = 0xF4 then some [(0x80, 0x8F), tail, tail]
  else none

def leadingBits (byte : UInt8) : Nat :=
  if byte < 0x80 then byte.toNat
  else if byte < 0xE0 then byte.toNat - 0xC0
  else if byte < 0xF0 then byte.toNat - 0xE0
  else byte.toNat - 0xF0

/-- Reads the bytes that follow; a mistake comes with the count of the good bytes before it. -/
def readFollowers : (ranges : List (UInt8 × UInt8)) → (read code : Nat) → List UInt8 →
    Except (Nat × Utf8Error.Reason) (Nat × List UInt8)
  | [], _, code, bytes => .ok (code, bytes)
  | _ :: _, read, _, [] => .error (read, .endOfData)
  | (low, high) :: ranges, read, code, byte :: bytes =>
      if low ≤ byte ∧ byte ≤ high then
        readFollowers ranges (read + 1) (code * 64 + (byte.toNat - 0x80)) bytes
      else .error (read, .continuationByte)

theorem readFollowers_length {ranges : List (UInt8 × UInt8)} {read code code' : Nat}
    {bytes rest : List UInt8} (h : readFollowers ranges read code bytes = .ok (code', rest)) :
    rest.length ≤ bytes.length := by
  fun_induction readFollowers ranges read code bytes with
  | case1 => cases h; exact Nat.le_refl _
  | case2 => cases h
  | case3 _ _ _ _ _ _ _ _ ih => exact Nat.le_succ_of_le (ih h)
  | case4 => cases h

def decodeFrom (position : Nat) : List UInt8 → Except Utf8Error (List Char)
  | [] => .ok []
  | byte :: bytes =>
      match followers? byte with
      | none => .error ⟨byte, position, 1, .startByte⟩
      | some ranges =>
          match _read : readFollowers ranges 1 (leadingBits byte) bytes with
          | .error (length, reason) => .error ⟨byte, position, length, reason⟩
          | .ok (code, rest) =>
              (decodeFrom (position + ranges.length + 1) rest).map (Char.ofNat code :: ·)
termination_by bytes => bytes.length
decreasing_by exact Nat.lt_succ_of_le (readFollowers_length _read)

def decode (bytes : List UInt8) : Except Utf8Error (List Char) :=
  decodeFrom 0 bytes

def encode (text : String) : List UInt8 :=
  text.toUTF8.toList

end Utf8

end LoxLang

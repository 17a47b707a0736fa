import LoxLang.Text.Printable

/-!
Quoted text in messages.  Single quotes are used, unless the text holds one and
no double quote; the quote, the backslash and what cannot be shown are escaped.
-/

namespace LoxLang

namespace Quoted

def hex (width code : Nat) : List Char :=
  let digits := Nat.toDigits 16 code
  List.replicate (width - digits.length) '0' ++ digits

def escape (quote c : Char) : List Char :=
  if c = quote || c = '\\' then ['\\', c]
  else if c = '\t' then ['\\', 't']
  else if c = '\n' then ['\\', 'n']
  else if c = '\r' then ['\\', 'r']
  else if isPrintable c then [c]
  else if c.toNat < 0x100 then '\\' :: 'x' :: hex 2 c.toNat
  else if c.toNat < 0x10000 then '\\' :: 'u' :: hex 4 c.toNat
  else '\\' :: 'U' :: hex 8 c.toNat

def quote (text : String) : String :=
  let chars := text.toList
  let mark := if chars.contains '\'' && !chars.contains '"' then '"' else '\''
  String.ofList (mark :: chars.flatMap (escape mark) ++ [mark])

end Quoted

end LoxLang

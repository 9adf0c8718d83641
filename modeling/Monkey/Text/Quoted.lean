import Monkey.Text.Rune
import Monkey.Text.Printable

/-!
# Quoted text

A byte string between double quotes, written so that it can be read in a message whatever it
holds: the quote and the backslash follow a backslash, the usual control characters have their
letter, and what is not printable is given by number, a byte in two digits and a character in
four or eight. Everything else stands for itself.
-/

namespace Monkey.Text

def hexDigit (n : Nat) : UInt8 :=
  (Nat.digitChar (n % 16)).toUInt8

/-- The lowest `width` hexadecimal digits of `n`. -/
def hexDigits : Nat → Nat → Bytes
  | 0, _ => []
  | width + 1, n => hexDigits width (n / 16) ++ [hexDigit n]

/-- The letter of a control character that has one. -/
def escapeLetter? (c : Char) : Option String :=
  match c.toNat with
  | 0x07 => some "\\a"
  | 0x08 => some "\\b"
  | 0x0c => some "\\f"
  | 0x0a => some "\\n"
  | 0x0d => some "\\r"
  | 0x09 => some "\\t"
  | 0x0b => some "\\v"
  | 0x22 => some "\\\""
  | 0x5c => some "\\\\"
  | _ => none

def escapeChar (c : Char) : Bytes :=
  match escapeLetter? c with
  | some letter => utf8 letter
  | none =>
    let n := c.toNat
    if isPrintable c then String.utf8EncodeChar c
    else if n < 0x20 || n == 0x7f then utf8 "\\x" ++ hexDigits 2 n
    else if n < 0x10000 then utf8 "\\u" ++ hexDigits 4 n
    else utf8 "\\U" ++ hexDigits 8 n

def Rune.escape : Rune → Bytes
  | .char c => escapeChar c
  | .stray b => utf8 "\\x" ++ hexDigits 2 b.toNat

def quote (bs : Bytes) : Bytes :=
  utf8 "\"" ++ (Rune.decode bs).flatMap Rune.escape ++ utf8 "\""

end Monkey.Text

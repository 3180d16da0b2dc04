import NineBit.Text.WordTable
import NineBit.Text.DigitTable
import NineBit.Text.PrintableTable

/-!
# Classes of characters

The classes that the notation of programs, numbers and images rests on: word characters, blanks,
decimal digits, digits of any kind, and printable characters. Each is decided directly on ASCII
and by a table beyond it.
-/

namespace NineBit.Text

/-- A letter, a number or the underscore: the characters of a label name. -/
def isWord (c : Char) : Bool :=
  if c.toNat < 0x80 then c.isAlphanum || c == '_' else lettersAndNumbers.contains c

/-- White space: the control characters that separate text, and the Unicode spaces. -/
def isBlank (c : Char) : Bool :=
  let n := c.toNat
  (decide (9 ≤ n) && decide (n ≤ 13)) || (decide (0x1c ≤ n) && decide (n ≤ 0x20)) ||
    n == 0x85 || n == 0xa0 || n == 0x1680 || (decide (0x2000 ≤ n) && decide (n ≤ 0x200a)) ||
    n == 0x2028 || n == 0x2029 || n == 0x202f || n == 0x205f || n == 0x3000

/-- The value of a decimal digit of any script. -/
def decimalDigit? (c : Char) : Option Nat :=
  if c.isDigit then some (c.toNat - '0'.toNat)
  else
    let start := decimalZeros.find? fun first =>
      decide (first ≤ c.toNat) && decide (c.toNat < first + 10)
    start.map (c.toNat - ·)

/-- A digit of any kind, superscripts and circled digits included. -/
def isDigit (c : Char) : Bool :=
  (decimalDigit? c).isSome || otherDigits.contains c

/-- A character that is shown as it is. -/
def isPrintable (c : Char) : Bool :=
  if c.toNat < 0x80 then decide (0x20 ≤ c.toNat) && decide (c.toNat < 0x7f)
  else printableBeyondAscii.contains c

end NineBit.Text

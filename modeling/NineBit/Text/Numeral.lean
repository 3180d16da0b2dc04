import NineBit.Text.Blank
import NineBit.Text.Quoted

/-!
# Numerals

Reading: blanks around a numeral are skipped, one sign may stand before it, and single underscores
may separate its digits, which may come from any script. Writing: a sign counts in the width that
zeros fill up.
-/

namespace NineBit.Text

/-- How the radix of a numeral is known. -/
inductive Radix where
  /-- Ten. -/
  | decimal
  /-- Sixteen; the mark `0x` may stand before the digits. -/
  | hexadecimal
  /-- As the numeral's own mark `0x`, `0o` or `0b` says, ten without one. -/
  | marked
  deriving Repr, DecidableEq

/-- The number by which messages name the radix; zero where the numeral marks it itself. -/
def Radix.number : Radix → Nat
  | .decimal => 10
  | .hexadecimal => 16
  | .marked => 0

/-- The value of a digit below the radix, letters standing for ten and more. -/
def digitValue? (radix : Nat) (c : Char) : Option Nat :=
  let value :=
    match decimalDigit? c with
    | some d => some d
    | none =>
      if 'a' ≤ c ∧ c ≤ 'z' then some (c.toNat - 'a'.toNat + 10)
      else if 'A' ≤ c ∧ c ≤ 'Z' then some (c.toNat - 'A'.toNat + 10)
      else none
  value.filter (· < radix)

/-- The value of a run of digits after the value so far; an underscore may follow a digit and must
    precede one. -/
def digitsValue? (radix : Nat) (value : Nat) (afterDigit : Bool) : List Char → Option Nat
  | [] => if afterDigit then some value else none
  | c :: rest =>
    if c = '_' then
      if afterDigit then digitsValue? radix value false rest else none
    else
      match digitValue? radix c with
      | some d => digitsValue? radix (value * radix + d) true rest
      | none => none

/-- The value of the digits that follow a radix mark, which one underscore may set off. -/
def markedValue? (radix : Nat) (digits : List Char) : Option Nat :=
  match digits with
  | '_' :: rest => digitsValue? radix 0 false rest
  | _ => digitsValue? radix 0 false digits

/-- A zero of any script. -/
def isZero (c : Char) : Bool := decimalDigit? c == some 0

/-- The value of a numeral without its sign. A marked numeral without a mark is decimal and has no
    leading zero, unless it is zero. -/
def magnitude? (radix : Radix) (digits : List Char) : Option Nat :=
  match radix, digits with
  | .decimal, _ => digitsValue? 10 0 false digits
  | .hexadecimal, zero :: mark :: rest =>
    if isZero zero && (mark == 'x' || mark == 'X') then markedValue? 16 rest
    else digitsValue? 16 0 false digits
  | .hexadecimal, _ => digitsValue? 16 0 false digits
  | .marked, zero :: rest =>
    if isZero zero then
      match rest with
      | 'x' :: more | 'X' :: more => markedValue? 16 more
      | 'o' :: more | 'O' :: more => markedValue? 8 more
      | 'b' :: more | 'B' :: more => markedValue? 2 more
      | _ => (digitsValue? 10 0 false digits).filter (· == 0)
    else digitsValue? 10 0 false digits
  | .marked, [] => none

/-- A blank around a numeral: white space other than the four separators of information. -/
def isNumeralBlank (c : Char) : Bool :=
  isBlank c && !(decide (0x1c ≤ c.toNat) && decide (c.toNat ≤ 0x1f))

/-- The text without the blanks around it. -/
def numeralChars (text : String) : List Char :=
  ((text.toList.dropWhile isNumeralBlank).reverse.dropWhile isNumeralBlank).reverse

/-- Reads a numeral with an optional sign. -/
def readInt? (radix : Radix) (text : String) : Option Int :=
  match numeralChars text with
  | '-' :: digits => (magnitude? radix digits).map fun value => -(value : Int)
  | '+' :: digits => (magnitude? radix digits).map Int.ofNat
  | digits => (magnitude? radix digits).map Int.ofNat

/-- The number of decimal digits before anything else than digits and underscores. -/
def leadingDigits : List Char → Nat
  | [] => 0
  | c :: rest =>
    if c = '_' then leadingDigits rest
    else if (decimalDigit? c).isSome then leadingDigits rest + 1
    else 0

/-- A letter that marks a radix after a zero. -/
def isRadixMark (c : Char) : Bool := ['x', 'X', 'o', 'O', 'b', 'B'].contains c

/-- How many decimal digits a number is read from; none in a radix that is a power of two. -/
def decimalDigits (radix : Radix) (text : String) : Nat :=
  let unsigned :=
    match numeralChars text with
    | '-' :: digits | '+' :: digits => digits
    | digits => digits
  match radix, unsigned with
  | .hexadecimal, _ => 0
  | .marked, zero :: mark :: rest =>
    if isZero zero && isRadixMark mark then 0 else leadingDigits (zero :: mark :: rest)
  | _, digits => leadingDigits digits

/-- The message about a text that is no numeral; its quotation is cut at 200 characters. -/
def invalidNumeral (radix : Radix) (text : String) : String :=
  s!"invalid literal for int() with base {radix.number}: " ++
    String.ofList ((quoted text).toList.take 200)

/-- Digits in a base with a sign, filled up with zeros to a width in which the sign counts. -/
def writeInt (base width : Nat) (n : Int) : String :=
  let digits := Nat.toDigits base n.natAbs
  let sign := if n < 0 then ['-'] else []
  String.ofList (sign ++ List.replicate (width - digits.length - sign.length) '0' ++ digits)

/-- The text with blanks put before it up to a width. -/
def padLeft (width : Nat) (text : String) : String :=
  String.ofList (List.replicate (width - text.length) ' ') ++ text

/-- The text with blanks put after it up to a width. -/
def padRight (width : Nat) (text : String) : String :=
  text ++ String.ofList (List.replicate (width - text.length) ' ')

/-- As many hexadecimal digits as words of a width in bits need; below zero for a width that no
    word has. -/
def hexPlaces (bits : Int) : Int := (bits + 3) / 4

/-- The least number of digits that words of a width in bits are shown with. -/
def hexWidth (bits : Int) : Nat := (hexPlaces bits).toNat

/-- Words were to be shown with fewer digits than none. -/
structure NegativePlaces where
  places : Int
  deriving Repr, DecidableEq

/-- The wording of the refusal. -/
def NegativePlaces.message (e : NegativePlaces) : String :=
  s!"Invalid format specifier '0{e.places}x' for object of type 'int'"

/-- Refuses to show words with fewer digits than none; no words can be shown at any width. -/
def checkPlaces (bits : Int) (words : List Int) : Except NegativePlaces Unit :=
  if hexPlaces bits < 0 ∧ words.length ≠ 0 then .error ⟨hexPlaces bits⟩ else .ok ()

end NineBit.Text

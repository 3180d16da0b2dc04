import NineBit.Text.Quoted

/-!
# Text from UTF-8 bytes

`decodeUtf8` reads bytes as text. The first sequence that is no character is reported with its
place, its length and what is wrong with it: the longest beginning of it that could still have
become a character counts as one faulty sequence.
-/

namespace NineBit.Text

/-- What is wrong with a byte sequence. -/
inductive Utf8Fault where
  /-- The byte starts no character. -/
  | invalidStart
  /-- The byte after the sequence does not continue it. -/
  | invalidContinuation
  /-- The bytes end within the sequence. -/
  | unexpectedEnd
  deriving Repr, DecidableEq

/-- The wording of a fault. -/
def Utf8Fault.message : Utf8Fault → String
  | .invalidStart => "invalid start byte"
  | .invalidContinuation => "invalid continuation byte"
  | .unexpectedEnd => "unexpected end of data"

/-- One step of decoding: a character with the number of its bytes, or a fault with the number of
    bytes it covers. -/
inductive Utf8Step where
  | character (c : Char) (size : Nat)
  | fault (why : Utf8Fault) (size : Nat)

/-- A byte that continues a sequence. -/
def isContinuation (b : UInt8) : Bool := 0x80 ≤ b && b < 0xc0

/-- The range of the byte after a leading byte: it excludes overlong forms, surrogates and code
    points beyond the last. -/
def secondByteFits (lead second : UInt8) : Bool :=
  isContinuation second && !(lead == 0xe0 && second < 0xa0) && !(lead == 0xed && second ≥ 0xa0) &&
    !(lead == 0xf0 && second < 0x90) && !(lead == 0xf4 && second ≥ 0x90)

/-- Reads the continuation bytes after `size` bytes whose bits are `value`. -/
def continueUtf8 (value size : Nat) : Nat → List UInt8 → Utf8Step
  | 0, _ => .character (Char.ofNat value) size
  | _ + 1, [] => .fault .unexpectedEnd size
  | more + 1, b :: rest =>
    if isContinuation b then continueUtf8 (value * 64 + b.toNat % 64) (size + 1) more rest
    else .fault .invalidContinuation size

/-- Reads the sequence that a byte starts. -/
def utf8Step (lead : UInt8) (rest : List UInt8) : Utf8Step :=
  let sequence (bits more : Nat) : Utf8Step :=
    match rest with
    | [] => .fault .unexpectedEnd 1
    | second :: tail =>
      if secondByteFits lead second then
        continueUtf8 (bits * 64 + second.toNat % 64) 2 more tail
      else .fault .invalidContinuation 1
  if lead < 0x80 then .character (Char.ofNat lead.toNat) 1
  else if lead < 0xc2 then .fault .invalidStart 1
  else if lead < 0xe0 then sequence (lead.toNat % 32) 0
  else if lead < 0xf0 then sequence (lead.toNat % 16) 1
  else if lead < 0xf5 then sequence (lead.toNat % 8) 2
  else .fault .invalidStart 1

/-- Where decoding failed, and why. -/
structure Utf8Error where
  first : UInt8
  position : Nat
  size : Nat
  why : Utf8Fault

/-- The wording of a decoding failure. -/
def Utf8Error.message (e : Utf8Error) : String :=
  let place :=
    if e.size = 1 then
      s!"byte 0x{String.ofList (hexDigits 2 e.first.toNat)} in position {e.position}"
    else s!"bytes in position {e.position}-{e.position + e.size - 1}"
  s!"'utf-8' codec can't decode {place}: {e.why.message}"

/-- Decodes the bytes from a position on, after the characters read so far (last first). -/
def decodeFrom (position : Nat) (chars : List Char) (bytes : List UInt8) :
    Except Utf8Error String :=
  match bytes with
  | [] => .ok (String.ofList chars.reverse)
  | lead :: rest =>
    match utf8Step lead rest with
    | .character c size => decodeFrom (position + size) (c :: chars) (rest.drop (size - 1))
    | .fault why size => .error ⟨lead, position, size, why⟩
  termination_by bytes.length
  decreasing_by simp only [List.length_drop, List.length_cons]; omega

/-- The text that bytes encode. -/
def decodeUtf8 (bytes : List UInt8) : Except Utf8Error String := decodeFrom 0 [] bytes

end NineBit.Text

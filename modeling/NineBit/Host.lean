import NineBit.Isa.Action

/-!
# The host

The toolchain is a program itself and runs on a machine, the host. A host has bounds: evaluations
are open inside one another to some depth only, no sequence is longer than there is room for, and a
number with too many digits is neither written nor read. Where a computation comes to such a bound
it makes a demand, and a host that does not meet the demand ends the computation with a crash.

What counts as depth are the calls within calls and the arrays within arrays of a program, not the
few evaluations that each of these needs for itself. What counts as room are the lengths that a
program asks for by a number, not what is built up step by step. What counts as a number that is
written are words and what a user has given, not lengths and what is counted one by one. What counts
as a number that is read are decimal numerals; the other bases have no bound.
-/

namespace NineBit

/-- How a host ends a computation. -/
inductive Crash where
  /-- Too many evaluations are open inside one another. -/
  | nesting (wording : String)
  /-- No sequence has such a length. -/
  | length
  /-- There is no room. -/
  | room
  /-- A number has more digits than are written. -/
  | digits (most : Nat)
  /-- A numeral has more digits than are read. -/
  | numeral (most digits : Nat)
  /-- No integer has so many bits. -/
  | integer
  /-- No field is so wide. -/
  | width
  /-- A text has no character at a place. -/
  | character
  /-- A row has no element at a place. -/
  | element
  /-- A table has no entry for a key. -/
  | entry (key : String)
  /-- No operation of a register has the name. -/
  | operation (name : String)
  deriving Repr, DecidableEq

/-- What the host says when it ends a computation. -/
def Crash.message : Crash → String
  | nesting wording => wording
  | length => "cannot fit 'int' into an index-sized integer"
  | room => ""
  | digits most =>
    s!"Exceeds the limit ({most} digits) for integer string conversion; " ++
      "use sys.set_int_max_str_digits() to increase the limit"
  | numeral most given =>
    s!"Exceeds the limit ({most} digits) for integer string conversion: " ++
      s!"value has {given} digits; use sys.set_int_max_str_digits() to increase the limit"
  | integer => "too many digits in integer"
  | width => "Too many decimal digits in format string"
  | character => "string index out of range"
  | element => "tuple index out of range"
  | entry key => key
  | operation name => Isa.Operation.unknown name

/-- What a computation asks of its host. -/
inductive Demand where
  /-- So many evaluations inside one another. -/
  | nesting (levels : Nat)
  /-- A sequence of a length, made at once. -/
  | sequence (length : Nat)
  /-- A list that grows up to a length. -/
  | growth (length : Nat)
  /-- A power of two. -/
  | power (bits : Nat)
  /-- The decimal digits of a number. -/
  | decimal (number : Int)
  /-- The number that so many decimal digits stand for. -/
  | numeral (digits : Nat)
  /-- A field of a width to write a number in. -/
  | field (width : Nat)
  /-- The character of a text at a place. -/
  | character (text : String) (place : Nat)
  deriving Repr, DecidableEq

/-- How many numbers have at most so many decimal digits. -/
def decimalCount (digits : Nat) : Nat := Nat.pow 10 digits

/-- The greatest length of a sequence on any host. -/
def Host.longest : Nat := 9223372036854775807

/-- The bounds of a host. -/
structure Host where
  /-- How many evaluations may be open inside one another. -/
  nesting : Nat
  /-- What the host says when there are to be more. -/
  wording : String
  /-- How many elements there is room for in a sequence. -/
  room : Nat
  /-- How many digits a number may have that is written or read in decimal. -/
  digits : Nat
  /-- A length is always written. -/
  longest_lt : Host.longest < decimalCount digits

namespace Host

/-- The number of bits in a limb of an integer. -/
def limbBits : Nat := 30

/-- The greatest number of limbs of an integer on any host. -/
def mostLimbs : Nat := (longest - 24) / 4

/-- The limbs of a power of two. -/
def limbs (bits : Nat) : Nat := 1 + (bits + (limbBits - 1)) / limbBits

/-- How the host ends a computation for a demand, unless it meets the demand. -/
def refusal (host : Host) : Demand → Option Crash
  | .nesting levels => if levels ≤ host.nesting then none else some (.nesting host.wording)
  | .sequence length =>
    if longest < length then some .length
    else if host.room < length then some .room
    else none
  | .growth length => if longest < length ∨ host.room < length then some .room else none
  | .power bits =>
    if mostLimbs < limbs bits then some .integer
    else if host.room < limbs bits then some .room
    else none
  | .decimal number =>
    if number.natAbs < decimalCount host.digits then none else some (.digits host.digits)
  | .numeral digits =>
    if digits ≤ host.digits then none else some (.numeral host.digits digits)
  | .field width =>
    if longest < width then some .width
    else if host.room < width then some .room
    else none
  | .character text place => if place < text.length then none else some .character

/-- A host that meets every demand a program may reasonably make. -/
def usual : Host where
  nesting := 480
  wording := "maximum recursion depth exceeded while getting the str of an object"
  room := 4294967296
  digits := 4300
  longest_lt := by decide +kernel

/-- Makes a demand. -/
def meet (host : Host) (demand : Demand) : Except Crash Unit :=
  match host.refusal demand with
  | none => .ok ()
  | some crash => .error crash

/-- Makes demands one after the other. -/
def meetAll (host : Host) (demands : List Demand) : Except Crash Unit := demands.forM host.meet

end Host

end NineBit

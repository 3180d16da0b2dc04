/-!
# Locations

A movement carries a value from a source to a destination. Both are written by name; a name that
ends in `$` belongs to a location that takes the next word of the program as its index, and the
bare `$` is that word itself. A source has four bits of the instruction word, a destination the
lowest four, of which two codes are free.
-/

namespace NineBit.Isa

/-- Where a movement takes its value from. -/
inductive Source where
  | zero | sum | sub | and | or | xor | memAt | mem | stackAt | stack | a | b | c | d | stackptrAt
  | literal
  deriving Repr, DecidableEq, Inhabited

/-- Where a movement puts its value. -/
inductive Destination where
  | nul | memAt | mem | stackAt | stack | push | a | b | c | d | m | n | pc | out
  deriving Repr, DecidableEq, Inhabited

/-- The mark of a location with an index. -/
def indexMark : Char := '$'

namespace Source

/-- Every source, in the order of the codes. -/
def all : List Source :=
  [zero, sum, sub, and, or, xor, memAt, mem, stackAt, stack, a, b, c, d, stackptrAt, literal]

/-- The written name. -/
def name : Source → String
  | zero => "zero"
  | sum => "sum"
  | sub => "sub"
  | and => "and"
  | or => "or"
  | xor => "xor"
  | memAt => "mem$"
  | mem => "mem"
  | stackAt => "stack$"
  | stack => "stack"
  | a => "a"
  | b => "b"
  | c => "c"
  | d => "d"
  | stackptrAt => "stackptr$"
  | literal => "$"

/-- The four-bit code. -/
def code : Source → Nat
  | zero => 0
  | sum => 1
  | sub => 2
  | and => 3
  | or => 4
  | xor => 5
  | memAt => 6
  | mem => 7
  | stackAt => 8
  | stack => 9
  | a => 10
  | b => 11
  | c => 12
  | d => 13
  | stackptrAt => 14
  | literal => 15

/-- The source of a code; only its lowest four bits count. -/
def ofCode (n : Nat) : Source :=
  match n % 16 with
  | 0 => zero
  | 1 => sum
  | 2 => sub
  | 3 => and
  | 4 => or
  | 5 => xor
  | 6 => memAt
  | 7 => mem
  | 8 => stackAt
  | 9 => stack
  | 10 => a
  | 11 => b
  | 12 => c
  | 13 => d
  | 14 => stackptrAt
  | _ => literal

/-- The source of a written name. -/
def ofName? (text : String) : Option Source := all.find? fun s => s.name == text

/-- The source takes a word of the program. -/
def takesWord : Source → Bool
  | memAt | stackAt | stackptrAt | literal => true
  | _ => false

theorem mem_all (s : Source) : s ∈ all := by cases s <;> decide

theorem code_lt (s : Source) : s.code < 16 := by cases s <;> decide

@[simp] theorem ofCode_code (s : Source) : ofCode s.code = s := by cases s <;> rfl

@[simp] theorem ofName?_name (s : Source) : ofName? s.name = some s := by cases s <;> decide

end Source

namespace Destination

/-- Every destination, in the order of the codes. -/
def all : List Destination :=
  [nul, memAt, mem, stackAt, stack, push, a, b, c, d, m, n, pc, out]

/-- The written name. -/
def name : Destination → String
  | nul => "nul"
  | memAt => "mem$"
  | mem => "mem"
  | stackAt => "stack$"
  | stack => "stack"
  | push => "push"
  | a => "a"
  | b => "b"
  | c => "c"
  | d => "d"
  | m => "m"
  | n => "n"
  | pc => "pc"
  | out => "out"

/-- The four-bit code. -/
def code : Destination → Nat
  | nul => 0
  | memAt => 1
  | mem => 2
  | stackAt => 3
  | stack => 4
  | push => 5
  | a => 6
  | b => 7
  | c => 8
  | d => 9
  | m => 10
  | n => 11
  | pc => 12
  | out => 13

/-- The destination of a code, of which only the lowest four bits count; two codes have none. -/
def ofCode? (code : Nat) : Option Destination :=
  match code % 16 with
  | 0 => some nul
  | 1 => some memAt
  | 2 => some mem
  | 3 => some stackAt
  | 4 => some stack
  | 5 => some push
  | 6 => some a
  | 7 => some b
  | 8 => some c
  | 9 => some d
  | 10 => some m
  | 11 => some n
  | 12 => some pc
  | 13 => some out
  | _ => none

/-- The destination of a written name. -/
def ofName? (text : String) : Option Destination := all.find? fun place => place.name == text

/-- The destination takes a word of the program. -/
def takesWord : Destination → Bool
  | memAt | stackAt => true
  | _ => false

theorem mem_all (x : Destination) : x ∈ all := by cases x <;> decide

theorem code_lt (x : Destination) : x.code < 14 := by cases x <;> decide

@[simp] theorem ofCode?_code (x : Destination) : ofCode? x.code = some x := by cases x <;> rfl

@[simp] theorem ofName?_name (x : Destination) : ofName? x.name = some x := by cases x <;> decide

end Destination

/-- A written name belongs to a location with an index. -/
def namesIndexed (name : String) : Bool := name.toList.getLast? == some indexMark

/-- The words that name a location in a program, without the mark, in alphabetical order. -/
def locationWords : List String :=
  ["a", "and", "b", "c", "d", "m", "mem", "n", "nul", "or", "out", "pc", "push", "stack",
    "stackptr", "sub", "sum", "xor", "zero"]

/-- A word that names a location. -/
def isLocationWord (word : String) : Bool := locationWords.contains word

end NineBit.Isa

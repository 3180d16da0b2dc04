import NineBit.Machine.Word

/-!
# The parts of the machine

Cells hold one word each; combinators compute a word from two cells; the memory is one part of its
own. Whenever a micro-step touches a part it leaves a mark on it.
-/

namespace NineBit.Machine

/-- A part that holds one word. -/
inductive Cell where
  | instruction | a | b | c | d | pc | m | n | stack | buffer
  deriving Repr, DecidableEq, Inhabited

/-- A part that computes a word from two cells. -/
inductive Combinator where
  | adder | subtractor | and | or | xor | stackRead | stackWrite
  deriving Repr, DecidableEq, Inhabited

/-- A part of the machine. -/
inductive Component where
  | cell (which : Cell)
  | combinator (which : Combinator)
  | memory
  deriving Repr, DecidableEq, Inhabited

/-- How a part was touched last. -/
inductive Mark where
  | idle | read | write
  | operation (op : Isa.Operation)
  deriving Repr, DecidableEq, Inhabited

/-- The character of a mark. -/
def Mark.symbol : Mark → Char
  | idle => ' '
  | read => 'R'
  | write => 'W'
  | operation op => op.symbol

namespace Cell

/-- The name shown for a cell. -/
def label : Cell → String
  | instruction => "Instruction Buffer"
  | a => "A Register"
  | b => "B Register"
  | c => "C Register"
  | d => "D Register"
  | pc => "PC"
  | m => "M Register"
  | n => "N Register"
  | stack => "Stack Register"
  | buffer => "Memory Buffer"

/-- The cell of a general register. -/
def ofRegister : Isa.Register → Cell
  | .a => a
  | .b => b
  | .c => c
  | .d => d

end Cell

namespace Combinator

/-- The name shown for a combinator. -/
def label : Combinator → String
  | adder => "Adder"
  | subtractor => "Subtractor"
  | and => "Bitwise AND"
  | or => "Bitwise OR"
  | xor => "Bitwise XOR"
  | stackRead => "Stack Read Address"
  | stackWrite => "Stack Write Address"

/-- The first operand. -/
def left : Combinator → Cell
  | stackRead | stackWrite => .stack
  | _ => .a

/-- The second operand. -/
def right : Combinator → Cell
  | stackRead => .m
  | stackWrite => .n
  | _ => .b

/-- The result before it is made a word. -/
def combine (k : Combinator) (x y : Nat) : Int :=
  match k with
  | adder | stackRead | stackWrite => (x : Int) + y
  | subtractor => (x : Int) - y
  | and => (Nat.land x y : Nat)
  | or => (Nat.lor x y : Nat)
  | xor => (Nat.xor x y : Nat)

end Combinator

namespace Component

/-- Every part, in the order in which they are shown. -/
def all : List Component :=
  [cell .instruction, cell .a, cell .b, cell .c, cell .d, combinator .adder,
    combinator .subtractor, combinator .and, combinator .or, combinator .xor, cell .pc, cell .m,
    cell .n, cell .stack, combinator .stackRead, combinator .stackWrite, cell .buffer, memory]

/-- The name shown for a part. -/
def label : Component → String
  | cell which => which.label
  | combinator which => which.label
  | memory => "Memory"

end Component

/-- The words of the cells. -/
structure Cells where
  instruction : Nat := 0
  a : Nat := 0
  b : Nat := 0
  c : Nat := 0
  d : Nat := 0
  pc : Nat := 0
  m : Nat := 0
  n : Nat := 0
  stack : Nat := 0
  buffer : Nat := 0
  deriving Repr, DecidableEq, Inhabited

namespace Cells

/-- The word of a cell. -/
def get (w : Cells) : Cell → Nat
  | .instruction => w.instruction
  | .a => w.a
  | .b => w.b
  | .c => w.c
  | .d => w.d
  | .pc => w.pc
  | .m => w.m
  | .n => w.n
  | .stack => w.stack
  | .buffer => w.buffer

/-- The words with one cell changed. -/
def set (w : Cells) (cell : Cell) (word : Nat) : Cells :=
  match cell with
  | .instruction => { w with instruction := word }
  | .a => { w with a := word }
  | .b => { w with b := word }
  | .c => { w with c := word }
  | .d => { w with d := word }
  | .pc => { w with pc := word }
  | .m => { w with m := word }
  | .n => { w with n := word }
  | .stack => { w with stack := word }
  | .buffer => { w with buffer := word }

@[simp] theorem get_set_self (w : Cells) (cell : Cell) (word : Nat) :
    (w.set cell word).get cell = word := by cases cell <;> rfl

theorem get_set_of_ne (w : Cells) {cell other : Cell} (word : Nat) (h : other ≠ cell) :
    (w.set cell word).get other = w.get other := by
  cases cell <;> cases other <;> first | rfl | exact absurd rfl h

end Cells

end NineBit.Machine

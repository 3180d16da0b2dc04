import NineBit.Machine.Component
import NineBit.Machine.Memory

/-!
# The datapath

Cells, memory and the two flags of the combinators, together with the marks that accesses leave.
Every access of a micro-step goes through the operations below: reading, writing and changing a
cell, evaluating a combinator, reading and writing the memory. A memory access that faults leaves
no mark.
-/

namespace NineBit.Machine

/-- The words of a machine and the traces of the accesses to them. -/
structure Datapath where
  bits : Nat
  cells : Cells
  memory : Memory
  zero : Bool
  carry : Bool
  /-- The accesses since the marks were cleared, the last one first. -/
  touched : List (Component × Mark)
  lastAddress : Option Nat
  deriving Repr, DecidableEq

namespace Datapath

/-- A datapath at rest, all words zero. -/
def initial (bits size : Nat) : Datapath where
  bits := bits
  cells := {}
  memory := .zeros size
  zero := false
  carry := false
  touched := []
  lastAddress := none

/-- The mark on a part. -/
def mark (p : Datapath) (component : Component) : Mark := (p.touched.lookup component).getD .idle

/-- Leaves a mark on a part. -/
def touch (p : Datapath) (component : Component) (mark : Mark) : Datapath :=
  { p with touched := (component, mark) :: p.touched }

/-- Clears the marks. -/
def clearMarks (p : Datapath) : Datapath := { p with touched := [], lastAddress := none }

/-- Sets the cells and flags to zero; the memory stays. -/
def reset (p : Datapath) : Datapath := { p with cells := {}, zero := false, carry := false }

/-- Reads a cell. -/
def readCell (p : Datapath) (cell : Cell) : Nat × Datapath :=
  (p.cells.get cell, p.touch (.cell cell) .read)

/-- Writes a cell. -/
def writeCell (p : Datapath) (cell : Cell) (value : Int) : Datapath :=
  { p with cells := p.cells.set cell (wrap p.bits value) }.touch (.cell cell) .write

/-- Applies an operation to a cell. -/
def operateCell (p : Datapath) (cell : Cell) (op : Isa.Operation) : Datapath :=
  { p with cells := p.cells.set cell (operate p.bits op (p.cells.get cell)) }.touch (.cell cell)
    (.operation op)

/-- The word of a combinator, without touching anything. -/
def peek (p : Datapath) (k : Combinator) : Nat :=
  wrap p.bits (k.combine (p.cells.get k.left) (p.cells.get k.right))

/-- Evaluates a combinator. The carry flag tells that the result was no word by itself, the zero
    flag that the word is zero. -/
def evaluate (p : Datapath) (k : Combinator) : Nat × Datapath :=
  let (x, p) := (p.touch (.combinator k) .read).readCell k.left
  let (y, p) := p.readCell k.right
  let result := k.combine x y
  let word := wrap p.bits result
  (word, { p with carry := decide (result < 0) || decide ((wordCount p.bits : Int) ≤ result),
                  zero := word == 0 })

/-- Reads the memory. -/
def readMemory (p : Datapath) (address : Int) : Except Fault (Nat × Datapath) :=
  match p.memory.read address with
  | .ok word =>
    .ok (word, { p.touch .memory .read with lastAddress := some address.toNat })
  | .error fault => .error fault

/-- Writes the memory. -/
def writeMemory (p : Datapath) (address value : Int) : Except Fault Datapath :=
  match p.memory.write address (wrap p.bits value) with
  | .ok memory =>
    .ok { p.touch .memory .write with memory := memory, lastAddress := some address.toNat }
  | .error fault => .error fault

/-- Loads words into the memory, which loses what it held. -/
def loadMemory (p : Datapath) (words : List Int) (address : Int) : Except Fault Datapath :=
  match p.memory.load (words.map (wrap p.bits)) address with
  | .ok memory => .ok { p with memory := memory }
  | .error fault => .error fault

/-- Sets every word of the memory to zero. -/
def clearMemory (p : Datapath) : Datapath := { p with memory := .zeros p.memory.size }

/-- The word of every cell and combinator, by the name shown. -/
def values (p : Datapath) : List (String × Nat) :=
  Component.all.filterMap fun
    | .cell which => some (which.label, p.cells.get which)
    | .combinator which => some (which.label, p.peek which)
    | .memory => none

/-- The parts that bear a mark, by the name shown. -/
def marks (p : Datapath) : List (String × Mark) :=
  (Component.all.map fun component => (component.label, p.mark component)).filter fun entry =>
    entry.2 != .idle

end Datapath

end NineBit.Machine

import NineBit.Machine.Word
import NineBit.Text.Slice

/-!
# Memory

A memory is a row of words with addresses from zero on. Addresses come as integers; one that no
cell has is a range fault, and then nothing changes.
-/

namespace NineBit.Machine

/-- Why the machine cannot go on. -/
inductive Fault where
  /-- A word that is no instruction was fetched. -/
  | noInstruction (word address : Nat)
  /-- An action word has no assigned action. -/
  | noAction (word address : Nat)
  /-- No memory cell has the address. -/
  | range (address : Int) (size : Int)
  deriving Repr, DecidableEq

/-- The wording of a fault. -/
def Fault.message : Fault → String
  | .noInstruction word address => s!"invalid instruction {word} at address {address}"
  | .noAction word address => s!"invalid action {word} at address {address}"
  | .range address size => s!"memory address {address} out of range (size {size})"

/-- The fault as a memory tells it that was asked for with a size. One asked for with fewer cells
    than none has no cell, and still tells the size asked for. -/
def Fault.ofSize (asked : Int) : Fault → Fault
  | .range address _ => .range address asked
  | fault => fault

/-- A row of words. -/
structure Memory where
  cells : Array Nat
  deriving Repr, DecidableEq, Inhabited

namespace Memory

/-- The number of cells. -/
def size (m : Memory) : Nat := m.cells.size

/-- A memory of zeros. -/
def zeros (size : Nat) : Memory := ⟨Array.replicate size 0⟩

/-- The cell that an address belongs to. -/
def cell (m : Memory) (address : Int) : Except Fault Nat :=
  if 0 ≤ address ∧ address < m.size then .ok address.toNat else .error (.range address m.size)

/-- The word at an address. -/
def read (m : Memory) (address : Int) : Except Fault Nat :=
  (m.cell address).map fun i => m.cells.getD i 0

/-- The memory with a word put at an address. -/
def write (m : Memory) (address : Int) (word : Nat) : Except Fault Memory :=
  match m.cell address with
  | .ok i => .ok ⟨m.cells.setIfInBounds i word⟩
  | .error fault => .error fault

/-- Puts words into cells one after the other. -/
def fill (cells : Array Nat) (i : Nat) : List Nat → Array Nat
  | [] => cells
  | word :: rest => fill (cells.setIfInBounds i word) (i + 1) rest

/-- A memory of the same size that holds just the given words from an address on. -/
def load (m : Memory) (words : List Nat) (address : Int) : Except Fault Memory :=
  match words with
  | [] => .ok (zeros m.size)
  | _ =>
    match m.cell address, m.cell (address + words.length - 1) with
    | .error fault, _ => .error fault
    | _, .error fault => .error fault
    | .ok i, .ok _ => .ok ⟨fill (zeros m.size).cells i words⟩

/-- The words from a signed place on, to the end or at most to `count` places further. -/
def dump (m : Memory) (address : Int) (count : Option Int) : List Nat :=
  let stop : Int :=
    match count with
    | none => m.size
    | some n => min (m.size : Int) (address + n)
  Text.slice m.cells.toList address stop

/-- The words other than zero with their addresses. -/
def nonzero (m : Memory) : List (Nat × Nat) :=
  (m.cells.toList.zipIdx.filter fun entry => entry.1 != 0).map fun entry => (entry.2, entry.1)

end Memory

end NineBit.Machine

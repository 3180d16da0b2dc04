import NineBit.Isa.Location
import NineBit.Isa.Condition
import NineBit.Isa.Action

/-!
# Instruction words

The three highest of nine bits tell the kind of an instruction word, the first that is set
deciding. The fields are read from the same nine bits whatever the kind, and higher bits of a wider
word do not count.
-/

namespace NineBit.Isa

/-- The kinds of instructions. -/
inductive Kind where
  | movement | condition | action
  deriving Repr, DecidableEq

/-- The name of a kind. -/
def Kind.name : Kind → String
  | .movement => "movement"
  | .condition => "condition"
  | .action => "action"

/-- The kind of a word, unless no kind bit is set. -/
def kind? (word : Nat) : Option Kind :=
  if word / 256 % 2 = 1 then some .movement
  else if word / 128 % 2 = 1 then some .condition
  else if word / 64 % 2 = 1 then some .action
  else none

/-- The source field of a word. -/
def source (word : Nat) : Source := .ofCode (word / 16)

/-- The destination field of a word. -/
def destination? (word : Nat) : Option Destination := Destination.ofCode? word

/-- The condition fields of a word. -/
def condition (word : Nat) : Condition := .ofCode word

/-- The action field of a word. -/
def action? (word : Nat) : Option Action := Action.ofCode? word

/-- The number of words that follow an instruction word as its operands. -/
def operandCount (word : Nat) : Nat :=
  if kind? word = some .movement then
    (if (source word).takesWord then 1 else 0) +
      (if ((destination? word).map Destination.takesWord).getD false then 1 else 0)
  else 0

/-- The nine bits of a signed word that an instruction is read from. -/
def low (word : Int) : Nat := (word % 512).toNat

/-- An instruction without its operands. -/
inductive Opcode where
  | movement (source : Source) (destination : Destination)
  | condition (c : Condition)
  | action (x : Action)
  deriving Repr, DecidableEq

/-- The word of an instruction. -/
def Opcode.word : Opcode → Nat
  | movement source destination => 256 + source.code * 16 + destination.code
  | condition c => 128 + c.code
  | action x => 64 + x.code

/-- The instruction that a word stands for, if it is one. -/
def Opcode.ofWord? (word : Nat) : Option Opcode :=
  match kind? word with
  | some .movement => (destination? word).map (movement (Isa.source word))
  | some .condition => some (condition (Isa.condition word))
  | some .action => (action? word).map action
  | none => none

theorem low_natCast (word : Nat) : low word = word % 512 := by
  simp only [low]
  omega

end NineBit.Isa

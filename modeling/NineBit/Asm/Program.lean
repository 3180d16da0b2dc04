import NineBit.Asm.Label
import NineBit.Isa.Opcode
import NineBit.Source

/-!
# Programs

A program is a row of statements. A statement carries its own index, and a label may name it. A
reference remembers the block it is written in; it means the label of its name in the innermost of
the blocks around it that has one, wherever in the program that label stands.
-/

namespace NineBit.Asm

/-- A reference to a label, written in a block. -/
structure Reference where
  name : String
  block : BlockPath
  span : Span
  deriving Repr, DecidableEq

/-- An operand or a piece of data. -/
inductive Literal where
  | number (value : Nat) (span : Span)
  | text (value : String) (span : Span)
  | array (elements : List Literal) (span : Span)
  | reference (r : Reference)
  deriving Repr

/-- Where a literal stands. -/
def Literal.span : Literal → Span
  | number _ span | text _ span | array _ span => span
  | reference r => r.span

/-- What a statement does. -/
inductive Statement.Body where
  | movement (destination : Isa.Destination) (source : Isa.Source)
      (destinationLiteral sourceLiteral : Option Literal)
  | condition (c : Isa.Condition)
  | action (x : Isa.Action)
  /-- Data, which is no code; it gets a place when something refers to it. -/
  | constant (l : Literal)
  deriving Repr

/-- A statement. -/
structure Statement where
  id : Nat
  span : Span
  label : Option Label
  body : Statement.Body
  deriving Repr

/-- The statement is data. -/
def Statement.isConstant (s : Statement) : Bool :=
  match s.body with
  | .constant _ => true
  | _ => false

/-- Labels with the indices of their statements, in the order of declaration. -/
abbrev LabelTable := List (Label × Nat)

namespace LabelTable

/-- The statement that a label names. -/
def find? (table : LabelTable) (label : Label) : Option Nat := table.lookup label

/-- The names of all labels, in ascending order, each once. -/
def names (table : LabelTable) : List String :=
  ((table.map fun entry => entry.1.name).mergeSort fun x y => decide (x ≤ y)).eraseDups

end LabelTable

namespace Reference

/-- The paths of a block and of the blocks around it, innermost first. -/
def enclosing : BlockPath → List BlockPath
  | [] => []
  | outermost :: rest => (enclosing rest).map (outermost :: ·) ++ [[outermost]]

/-- The innermost enclosing block with the label, and the statement it names there. -/
def resolve? (table : LabelTable) (r : Reference) : Option (BlockPath × Nat) :=
  (enclosing r.block).findSome? fun block =>
    (table.find? ⟨block, r.name⟩).map fun id => (block, id)

/-- The index of the statement referred to. -/
def target? (table : LabelTable) (r : Reference) : Option Nat := (r.resolve? table).map (·.2)

end Reference

/-- A parsed program. -/
structure Program where
  statements : Array Statement
  labels : LabelTable
  references : List Reference
  deriving Repr

namespace Program

/-- The statements that are code. -/
def executable (p : Program) : List Statement := p.statements.toList.filter (!·.isConstant)

/-- The statement of a label given by its key, or by its name if it is in the outermost block. -/
def lookup? (p : Program) (name : String) : Option Nat :=
  let key := Label.requestedKey name
  (List.find? (fun entry => entry.1.key == key) p.labels).map (·.2)

end Program

end NineBit.Asm

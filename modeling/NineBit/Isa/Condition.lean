/-!
# Conditions

A condition tests the zero and carry flags and three registers, for all or for any of its targets,
and may invert the outcome. It is written as a question mark, the marks for inversion and for
"any", and the targets.
-/

namespace NineBit.Isa

/-- What a condition tests: a flag that is set, or a register that is zero. -/
inductive Target where
  | zeroFlag | carryFlag | a | b | c
  deriving Repr, DecidableEq, Inhabited

namespace Target

/-- Every target, from the highest bit to the lowest. -/
def all : List Target := [zeroFlag, carryFlag, a, b, c]

/-- The letter of a target. -/
def letter : Target → Char
  | zeroFlag => 'Z'
  | carryFlag => 'C'
  | a => 'a'
  | b => 'b'
  | c => 'c'

/-- The bit of a target in the instruction word. -/
def bit : Target → Nat
  | zeroFlag => 16
  | carryFlag => 8
  | a => 4
  | b => 2
  | c => 1

/-- The target of a letter. -/
def ofLetter? (letter : Char) : Option Target := all.find? fun t => t.letter == letter

@[simp] theorem ofLetter?_letter (t : Target) : ofLetter? t.letter = some t := by
  cases t <;> decide

end Target

/-- A condition. -/
structure Condition where
  invert : Bool
  anyOf : Bool
  targets : List Target
  deriving Repr, DecidableEq, Inhabited

namespace Condition

/-- The bits of the targets together. -/
def targetBits (targets : List Target) : Nat := targets.foldl (fun bits t => bits ||| t.bit) 0

/-- The seven bits of a condition in the instruction word. -/
def code (c : Condition) : Nat :=
  (if c.anyOf then 64 else 0) + (if c.invert then 32 else 0) + targetBits c.targets

/-- The condition of a code; its targets come in the order of their bits. -/
def ofCode (code : Nat) : Condition where
  invert := code / 32 % 2 == 1
  anyOf := code / 64 % 2 == 1
  targets := Target.all.filter fun t => code / t.bit % 2 == 1

/-- The written form. -/
def text (c : Condition) : String :=
  String.ofList ('?' :: (if c.invert then ['!'] else []) ++ (if c.anyOf then ['|'] else []) ++
    c.targets.map Target.letter)

/-- The condition whose marks and letters are given; letters that repeat count once, in the order
    of their first places. -/
def ofMarks (marks : List Char) : Condition where
  invert := marks.contains '!'
  anyOf := marks.contains '|'
  targets := (marks.filterMap Target.ofLetter?).eraseDups

end Condition

end NineBit.Isa

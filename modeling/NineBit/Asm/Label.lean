import NineBit.Text.Blank

/-!
# Labels and their blocks

A label belongs to the block it is declared in. Blocks are numbered from one within the block
around them, and a block is known by the numbers on the way to it from the outermost block, which
is number zero. The key of a label spells out that path; to a reader, a label of the outermost
block is its plain name.
-/

namespace NineBit.Asm

/-- The numbers on the way to a block, from the outermost block inwards. -/
abbrev BlockPath := List Nat

/-- A label. -/
structure Label where
  block : BlockPath
  name : String
  deriving Repr, DecidableEq

namespace Label

/-- What separates the path from the name in a key. -/
def separator : Char := '!'

/-- The path and the name in one text. -/
def key (l : Label) : String :=
  ".".intercalate (l.block.map fun n => s!"{n}") ++ String.singleton separator ++ l.name

/-- The form in which a key is shown: without its path if that is the outermost block. -/
def displayKey (key : String) : String :=
  let (path, name) := Text.partition separator key
  if path = "0" then name else key

/-- The form in which a label is shown. -/
def display (l : Label) : String := displayKey l.key

/-- The key that a text asks for: the text itself if it is a key, or else that of the label of the
    outermost block with this name. -/
def requestedKey (text : String) : String :=
  if text.toList.contains separator then text else key ⟨[0], text⟩

end Label

end NineBit.Asm

import NineBit.Source

/-!
# Tokens

A token is a piece of a program text with its kind and place. The text of a token is the piece
itself, but for a string, whose text is its value with a closing NUL character.
-/

namespace NineBit.Asm

/-- The kinds of tokens. -/
inductive Token.Kind where
  | label | reference | location | movement | condition | action | registerAction
  | number | string | arrayStart | arrayEnd | arrayLength
  | macroName | argumentsStart | argumentsEnd
  | blockStart | blockEnd
  deriving Repr, DecidableEq

/-- A token. -/
structure Token where
  kind : Token.Kind
  text : String
  span : Span
  deriving Repr, DecidableEq

/-- The character that closes the value of a string. -/
def closingNul : Char := Char.ofNat 0

end NineBit.Asm

/-!
# Actions

A control action stops the machine or drops the top of the stack; a register action changes one of
the four general registers in place.
-/

namespace NineBit.Isa

/-- An action on the machine as a whole. -/
inductive Control where
  | halt | done | pause | pop
  deriving Repr, DecidableEq, Inhabited

/-- A general register. -/
inductive Register where
  | a | b | c | d
  deriving Repr, DecidableEq, Inhabited

/-- What a register action does. -/
inductive Operation where
  | increment | decrement | invert | shiftLeft | shiftRight
  deriving Repr, DecidableEq, Inhabited

/-- What an action word asks for. -/
inductive Action where
  | control (c : Control)
  | register (op : Operation) (r : Register)
  deriving Repr, DecidableEq, Inhabited

namespace Control

/-- Every control action, in the order of the codes. -/
def all : List Control := [halt, done, pause, pop]

/-- The written name, after an exclamation mark. -/
def name : Control → String
  | halt => "halt"
  | done => "done"
  | pause => "pause"
  | pop => "pop"

/-- The six-bit code. -/
def code : Control → Nat
  | halt => 1
  | done => 2
  | pause => 3
  | pop => 24

/-- The control action of a written name. -/
def ofName? (text : String) : Option Control := all.find? fun c => c.name == text

/-- The names of the control actions. -/
def names : List String := all.map name

@[simp] theorem ofName?_name (c : Control) : ofName? c.name = some c := by cases c <;> decide

end Control

namespace Register

/-- Every general register, in the order of the codes. -/
def all : List Register := [a, b, c, d]

/-- The letter of a register. -/
def letter : Register → Char
  | a => 'a'
  | b => 'b'
  | c => 'c'
  | d => 'd'

/-- The two-bit code. -/
def code : Register → Nat
  | a => 0
  | b => 1
  | c => 2
  | d => 3

/-- The register of a letter. -/
def ofLetter? (letter : Char) : Option Register := all.find? fun r => r.letter == letter

/-- The register that a word of one letter names. -/
def ofName? (text : String) : Option Register :=
  match text.toList with
  | [letter] => ofLetter? letter
  | _ => none

/-- The register of a code; only its lowest two bits count. -/
def ofCode (code : Nat) : Register :=
  match code % 4 with
  | 0 => a
  | 1 => b
  | 2 => c
  | _ => d

@[simp] theorem ofCode_code (r : Register) : ofCode r.code = r := by cases r <;> rfl

@[simp] theorem ofLetter?_letter (r : Register) : ofLetter? r.letter = some r := by
  cases r <;> decide

end Register

namespace Operation

/-- Every operation, in the order of the codes. -/
def all : List Operation := [increment, decrement, invert, shiftLeft, shiftRight]

/-- The character of an operation. -/
def symbol : Operation → Char
  | increment => '+'
  | decrement => '-'
  | invert => '!'
  | shiftLeft => '<'
  | shiftRight => '>'

/-- The three-bit code. -/
def code : Operation → Nat
  | increment => 1
  | decrement => 2
  | invert => 3
  | shiftLeft => 4
  | shiftRight => 5

/-- The operation of a character. -/
def ofSymbol? (c : Char) : Option Operation := all.find? fun op => op.symbol == c

/-- The operation that a text of one character names. -/
def ofName? (text : String) : Option Operation :=
  match text.toList with
  | [c] => ofSymbol? c
  | _ => none

/-- The message about a text that names no operation. -/
def unknown (name : String) : String := s!"unknown register action '{name}'"

@[simp] theorem ofSymbol?_symbol (op : Operation) : ofSymbol? op.symbol = some op := by
  cases op <;> decide

end Operation

namespace Action

/-- The six-bit code. -/
def code : Action → Nat
  | control c => c.code
  | register op r => op.code * 4 + r.code

/-- The action of a code, if one is assigned; only its lowest six bits count. -/
def ofCode? (n : Nat) : Option Action :=
  match n % 64 with
  | 1 => some (control .halt)
  | 2 => some (control .done)
  | 3 => some (control .pause)
  | 24 => some (control .pop)
  | code =>
    match code / 4 with
    | 1 => some (register .increment (.ofCode code))
    | 2 => some (register .decrement (.ofCode code))
    | 3 => some (register .invert (.ofCode code))
    | 4 => some (register .shiftLeft (.ofCode code))
    | 5 => some (register .shiftRight (.ofCode code))
    | _ => none

/-- The written form. -/
def text : Action → String
  | control c => "!" ++ c.name
  | register op r => String.ofList [op.symbol, r.letter]

@[simp] theorem ofCode?_code (x : Action) : ofCode? x.code = some x := by
  cases x with
  | control c => cases c <;> rfl
  | register op r => cases op <;> cases r <;> rfl

end Action

end NineBit.Isa

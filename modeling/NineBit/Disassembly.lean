import NineBit.Host
import NineBit.Isa.Opcode
import NineBit.Text.Numeral
import NineBit.Text.Slice

/-!
# Disassembly

A disassembly cuts the words of an image into lines: an instruction with its operands, or a single
word that is none. The text of an instruction is its written form in a program, so that it can be
assembled again. Symbols only add comments.
-/

namespace NineBit

/-- Names of addresses. Of several names for an address the first one counts. -/
abbrev SymbolTable := List (Int × String)

namespace Disassembly

/-- A line of a disassembly. -/
structure Line where
  address : Int
  words : List Int
  text : String
  comment : String
  deriving Repr, DecidableEq

/-- Why there is no line at an offset. -/
inductive Error where
  | beyond (offset : Int) (length : Nat)
  | before
  | missingOperand
  deriving Repr, DecidableEq

/-- The wording of an error. -/
def Error.message : Error → String
  | .beyond offset length => s!"Offset {offset} beyond data length {length}"
  | .before => "list index out of range"
  | .missingOperand => "pop from empty list"

namespace Line

/-- The number of words. -/
def size (line : Line) : Nat := line.words.length

/-- The line as listings show it, the words having as many digits as the width asks for. -/
def render (bits : Int) (line : Line) : String :=
  let words := " ".intercalate (line.words.map (Text.writeInt 16 (Text.hexWidth bits)))
  let address := Text.writeInt 10 4 line.address
  let shown := s!"{address}: {Text.padRight (3 * (Text.hexPlaces bits + 1)).toNat words} "
  if line.comment.isEmpty then shown ++ line.text
  else s!"{shown}{Text.padRight 20 line.text} // {line.comment}"

/-- The line as listings show it, for a width that nobody has checked. -/
def renderUnchecked (bits : Int) (line : Line) : Except Text.NegativePlaces String :=
  (Text.checkPlaces bits line.words).map fun _ => line.render bits

end Line

/-- A word that is no instruction. -/
def dataLine (address word : Int) (comment : String) : Line :=
  ⟨address, [word], s!".word {word}", comment⟩

/-- An instruction; without a comment of its own it shows the symbol of its address. -/
def instructionLine (symbols : SymbolTable) (address : Int) (words : List Int)
    (text comment : String) : Line :=
  let own :=
    if comment.isEmpty then ((symbols.lookup address).map (· ++ ":")).getD "" else comment
  ⟨address, words, text, own⟩

/-- The name of a location without the mark of an index. -/
def bareName (name : String) : String :=
  String.ofList (name.toList.filter (· != Isa.indexMark))

/-- A source in its written form, after the operand it takes. -/
def sourceText (source : Isa.Source) (operand : Int) : String :=
  if source = .literal then s!"{operand}"
  else if source.takesWord then s!"{bareName source.name} {operand}"
  else source.name

/-- A destination in its written form, after the operand it takes. -/
def destinationText (destination : Isa.Destination) (operand : Int) : String :=
  if destination.takesWord then s!"{bareName destination.name} {operand}" else destination.name

/-- The number of operands of a movement. -/
def operands (source : Isa.Source) (destination : Isa.Destination) : Nat :=
  (if source.takesWord then 1 else 0) + (if destination.takesWord then 1 else 0)

/-- A movement with its operands; the target of a jump to a fixed address is commented on. -/
def movementLine (symbols : SymbolTable) (address : Int) (source : Isa.Source)
    (destination : Isa.Destination) (words arguments : List Int) : Line :=
  let first := arguments.headD 0
  let second := if source.takesWord then (arguments.drop 1).headD 0 else first
  let comment :=
    if destination = .pc ∧ source = .literal then (symbols.lookup first).getD "" else ""
  instructionLine symbols address words
    s!"{destinationText destination second} = {sourceText source first}" comment

/-- A movement whose operands the image does not hold. -/
def incompleteLine (address : Int) (source : Isa.Source) (destination : Isa.Destination)
    (words : List Int) : Line :=
  let bare := bareName source.name
  let shown := if bare.isEmpty then "???" else bare
  ⟨address, words, s!"{bareName destination.name} = {shown}", "incomplete instruction"⟩

/-- The line of a word that is no movement. -/
def singleLine (symbols : SymbolTable) (address word : Int) : Line :=
  let bits := Isa.low word
  match Isa.kind? bits with
  | some .condition =>
    let condition := Isa.condition bits
    if condition.targets.isEmpty then dataLine address word "condition without targets"
    else instructionLine symbols address [word] condition.text ""
  | some .action =>
    match Isa.action? bits with
    | some action => instructionLine symbols address [word] action.text ""
    | none => dataLine address word "unassigned action"
  | _ => dataLine address word ""

/-- The line at an address, given the word there and the words after it. -/
def lineOf (symbols : SymbolTable) (address word : Int) (rest : List Int) : Line :=
  let bits := Isa.low word
  if Isa.kind? bits = some .movement then
    let source := Isa.source bits
    match Isa.destination? bits with
    | none => dataLine address word "invalid destination"
    | some destination =>
      let count := operands source destination
      if rest.length < count then incompleteLine address source destination (word :: rest)
      else
        let arguments := rest.take count
        movementLine symbols address source destination (word :: arguments) arguments
  else singleLine symbols address word

/-- The lines of the words from an address on, at most as many as asked for. -/
def linesOf (symbols : SymbolTable) (address : Int) (count : Option Nat) (words : List Int) :
    List Line :=
  match words with
  | [] => []
  | word :: rest =>
    if count = some 0 then []
    else
      let line := lineOf symbols address word rest
      line :: linesOf symbols (address + line.size) (count.map (· - 1)) (rest.drop (line.size - 1))
  termination_by words.length
  decreasing_by simp only [List.length_drop, List.length_cons]; omega

/-- The line at an offset below zero, which counts from the end of the image. Operands are taken
    from there too, and may be missing. -/
def lineBefore (symbols : SymbolTable) (words : List Int) (offset : Int) : Except Error Line :=
  match Text.signedGet? words offset with
  | none => .error .before
  | some word =>
    let bits := Isa.low word
    if Isa.kind? bits = some .movement then
      let source := Isa.source bits
      match Isa.destination? bits with
      | none => .ok (dataLine offset word "invalid destination")
      | some destination =>
        let count := operands source destination
        let stop := offset + 1 + count
        let arguments := Text.slice words (offset + 1) stop
        if words.length ≤ offset + count then
          .ok (incompleteLine offset source destination (Text.slice words offset words.length))
        else if arguments.length < count then .error .missingOperand
        else
          .ok (movementLine symbols offset source destination (Text.slice words offset stop)
            arguments)
    else .ok (singleLine symbols offset word)

/-- The line at an offset. -/
def lineAt (symbols : SymbolTable) (words : List Int) (offset : Int) : Except Error Line :=
  if words.length ≤ offset then .error (.beyond offset words.length)
  else if offset < 0 then lineBefore symbols words offset
  else
    match words.drop offset.toNat with
    | [] => .error (.beyond offset words.length)
    | word :: rest => .ok (lineOf symbols offset word rest)

/-- The lines from an offset on. Offsets below zero count from the end, and the lines go on from the
    beginning after them. A line without words leaves the offset where it is, so it is the last one
    seen, as many times as lines are asked for. -/
def linesAt (symbols : SymbolTable) (words : List Int) (offset : Int) (count : Option Nat) :
    Except Error (List Line) :=
  if _h : offset < 0 then
    if count = some 0 then .ok []
    else
      match lineBefore symbols words offset with
      | .error error => .error error
      | .ok line =>
        if _empty : line.size = 0 then .ok (List.replicate (count.getD 1) line)
        else (linesAt symbols words (offset + line.size) (count.map (· - 1))).map (line :: ·)
  else .ok (linesOf symbols offset count (words.drop offset.toNat))
  termination_by (-offset).toNat
  decreasing_by omega

/-- The disassembly of an image from a start on. A count below zero asks for no line. -/
def lines (symbols : SymbolTable) (words : List Int) (start : Int) (count : Option Int) :
    Except Error (List Line) :=
  linesAt symbols words start (count.map Int.toNat)

/-- The words of a line that its text shows as decimal numbers: the operands of a movement, or a
    word that is no instruction. -/
def Line.decimals (line : Line) : List Int :=
  match line.words with
  | [] => []
  | word :: rest =>
    let bits := Isa.low word
    match Isa.kind? bits with
    | some .movement =>
      match Isa.destination? bits with
      | none => [word]
      | some destination =>
        if rest.length < operands (Isa.source bits) destination then [] else rest
    | some .condition => if (Isa.condition bits).targets.isEmpty then [word] else []
    | some .action => if (Isa.action? bits).isNone then [word] else []
    | none => [word]

/-- What showing lines asks of a host: their numbers, and the fields of their words. -/
def demands (bits : Int) (listing : List Line) : List Demand :=
  (listing.flatMap Line.decimals).map .decimal ++
    if listing.isEmpty then []
    else [.field (Text.hexWidth bits), .field (3 * (Text.hexPlaces bits + 1)).toNat]

/-- The lines as a text. -/
def render (bits : Int) (listing : List Line) : String :=
  "\n".intercalate (listing.map (Line.render bits))

end Disassembly

end NineBit

import NineBit.Asm.Program
import NineBit.Config
import NineBit.Report

/-!
# Layout of the image

The image starts with the code: each executable statement is one instruction word, followed by the
word of its source operand and the word of its destination operand where it has them. Every operand
that is no number leaves a gap, and the gaps are filled in the order in which they were left: a
reference becomes the address of its statement, and a string or an array becomes the address of its
own copy behind what is there. A constant is put behind what is there when the first reference to
it is filled in; references in data leave gaps in turn. Each constant is put down once, so the work
ends.
-/

namespace NineBit.Asm

/-- A statement and the address of its first word. -/
structure Placement where
  id : Nat
  address : Nat
  deriving Repr, DecidableEq

/-- An assembled image: its words, and where the statements have been put, in that order. -/
structure Output where
  words : Array Nat
  placements : Array Placement
  program : Program
  deriving Repr

namespace Output

/-- The address of a statement. -/
def addressOfId? (o : Output) (id : Nat) : Option Nat :=
  (o.placements.find? fun p => p.id == id).map (·.address)

/-- The address of each placed statement, by ascending index. -/
def statementAddresses (o : Output) : List (Nat × Nat) :=
  (o.placements.toList.map fun p => (p.id, p.address)).mergeSort fun x y => decide (x.1 ≤ y.1)

/-- The statement put at an address; of several at one address the last one. -/
def statementAt? (o : Output) (address : Nat) : Option Nat :=
  (o.placements.toList.reverse.find? fun p => p.address == address).map (·.id)

/-- Of each address with a statement, the last one put there, by ascending address. -/
def addressStatements (o : Output) : List (Nat × Nat) :=
  let addresses := ((o.placements.toList.map (·.address)).mergeSort fun x y => decide (x ≤ y))
  addresses.eraseDups.filterMap fun address =>
    (o.statementAt? address).map fun id => (address, id)

/-- The address of a label, given by key or as a name in the outermost block. -/
def addressOf? (o : Output) (label : String) : Option Nat :=
  (o.program.lookup? label).bind o.addressOfId?

/-- The labels whose statements have an address, as they are shown, in the order of
    declaration. -/
def symbols (o : Output) : List (String × Nat) :=
  o.program.labels.filterMap fun entry =>
    (o.addressOfId? entry.2).map fun address => (entry.1.display, address)

/-- The symbols by ascending name. -/
def sortedSymbols (o : Output) : List (String × Nat) :=
  o.symbols.mergeSort fun x y => decide (x.1 ≤ y.1)

end Output

/-- A reason why a program cannot be laid out, which no program without problems has on a machine
    with a valid configuration. -/
inductive LayoutFault where
  | negativeWidth
  | unresolved (name : String)
  | unplaced (id : Nat)
  | noLiteral
  deriving Repr, DecidableEq

/-- The wording of a layout fault. -/
def LayoutFault.message : LayoutFault → String
  | negativeWidth => "negative shift count"
  | unresolved name => s!"reference ':{name}' reached linking unresolved"
  | unplaced id => s!"statement {id} has no address"
  | noLiteral => "literal has no value"

namespace Layout

/-- A gap in the image, and what fills it. -/
structure Gap where
  address : Nat
  literal : Literal

/-- An image in the making: the gaps left by the newest words come last first. -/
structure Draft where
  words : Array Nat
  placements : Array Placement
  gaps : List Gap

/-- Adds a word of a width in bits. -/
def Draft.emit (bits : Nat) (d : Draft) (value : Nat) : Draft :=
  { d with words := d.words.push (value % wordCount bits) }

/-- Adds a word that is to be filled in. -/
def Draft.leave (d : Draft) (literal : Literal) : Draft :=
  { d with
    words := d.words.push 0
    gaps := ⟨d.words.size, literal⟩ :: d.gaps }

/-- Notes that a statement starts here. -/
def Draft.place (d : Draft) (id : Nat) : Draft :=
  { d with placements := d.placements.push ⟨id, d.words.size⟩ }

/-- Adds the word of an operand. -/
def Draft.operand (bits : Nat) (d : Draft) (literal : Literal) : Draft :=
  match literal with
  | .number value _ => d.emit bits value
  | _ => d.leave literal

/-- Adds the word of an operand, if the location takes one and there is one. -/
def Draft.operand? (bits : Nat) (d : Draft) (takesWord : Bool) (literal : Option Literal) : Draft :=
  match takesWord, literal with
  | true, some l => d.operand bits l
  | _, _ => d

/-- Adds an executable statement. -/
def Draft.statement (bits : Nat) (d : Draft) (s : Statement) : Draft :=
  match s.body with
  | .movement destination source destinationLiteral sourceLiteral =>
    let opcode := (d.place s.id).emit bits (Isa.Opcode.movement source destination).word
    (opcode.operand? bits source.takesWord sourceLiteral).operand? bits destination.takesWord
      destinationLiteral
  | .condition c => (d.place s.id).emit bits (Isa.Opcode.condition c).word
  | .action x => (d.place s.id).emit bits (Isa.Opcode.action x).word
  | .constant _ => d

mutual

/-- Adds the words of a literal as data, arrays being spliced in. -/
def Draft.data (bits : Nat) (d : Draft) : Literal → Draft
  | .number value _ => d.emit bits value
  | .text value _ => value.toList.foldl (fun d c => d.emit bits c.toNat) d
  | .array elements _ => d.dataList bits elements
  | .reference r => d.leave (.reference r)

/-- Adds the words of some literals as data. -/
def Draft.dataList (bits : Nat) (d : Draft) : List Literal → Draft
  | [] => d
  | literal :: rest => (d.data bits literal).dataList bits rest

end

/-- The code of some statements. -/
def code (bits : Nat) (statements : List Statement) : Draft :=
  statements.foldl (Draft.statement bits) ⟨#[], #[], []⟩

/-- Puts a word into a gap. -/
def Draft.fill (d : Draft) (address word : Nat) : Draft :=
  { d with words := d.words.setIfInBounds address word }

/-- The address that a draft has recorded for a statement. -/
def Draft.addressOf? (d : Draft) (id : Nat) : Option Nat :=
  (d.placements.find? fun p => p.id == id).map (·.address)

/-- Finds the address that fills a gap, after putting data down where that is needed. -/
def resolve (bits : Nat) (p : Program) (d : Draft) (literal : Literal) :
    Except LayoutFault (Nat × Draft × Option Milestone) :=
  match literal with
  | .number _ _ => .error .noLiteral
  | .text _ _ | .array _ _ => .ok (d.words.size, d.data bits literal, none)
  | .reference r =>
    match (r.target? p.labels).bind fun id => p.statements[id]? with
    | none => .error (.unresolved r.name)
    | some target =>
      match d.addressOf? target.id, target.body with
      | some address, _ => .ok (address, d, none)
      | none, .constant data =>
        let address := d.words.size
        .ok (address, (d.place target.id).data bits data,
          some (.placed (target.label.map Label.key) address))
      | none, _ => .error (.unplaced target.id)

mutual

/-- The number of references in a literal. -/
def references : Literal → Nat
  | .number _ _ | .text _ _ => 0
  | .array elements _ => referencesIn elements
  | .reference _ => 1

/-- The number of references in some literals. -/
def referencesIn : List Literal → Nat
  | [] => 0
  | literal :: rest => references literal + referencesIn rest

end

/-- The number of gaps that filling a gap takes, itself included, constants left aside. -/
def gapWork (gap : Gap) : Nat :=
  match gap.literal with
  | .reference _ => 1
  | literal => references literal + 1

/-- The number of references in a constant, zero for any other statement. -/
def constantWork (s : Statement) : Nat :=
  match s.body with
  | .constant literal => references literal
  | _ => 0

/-- A bound on the number of gaps to be filled: those there are, those in their data, and those in
    each constant. -/
def workBound (p : Program) (gaps : List Gap) : Nat :=
  gaps.foldl (fun total gap => total + gapWork gap)
    (p.statements.foldl (fun total s => total + constantWork s) 0)

/-- Fills gaps in turn, the oldest first, at most as many as the bound says. -/
def fillGaps (bits : Nat) (p : Program) :
    Nat → List Gap → Draft → Report (Except LayoutFault Draft)
  | 0, _, d => return .ok d
  | _ + 1, [], d => return .ok d
  | bound + 1, gap :: queue, d =>
    match resolve bits p { d with gaps := [] } gap.literal with
    | .error fault => return .error fault
    | .ok (word, d, none) =>
      fillGaps bits p bound (queue ++ d.gaps.reverse) (d.fill gap.address word)
    | .ok (word, d, some milestone) =>
      .enter (.milestone milestone) fun _ =>
        fillGaps bits p bound (queue ++ d.gaps.reverse) (d.fill gap.address word)

/-- The problem with an image that the memory does not hold. -/
def tooLarge (words : Nat) (memorySize : Int) : Diagnostic :=
  ⟨.linking, s!"program image of {words} words exceeds the {memorySize}-word memory", none, none⟩

end Layout

/-- Lays out a program for words of a width in bits. An image that is larger than the memory is a
    problem. -/
def layout (bits : Nat) (memorySize : Int) (p : Program) :
    Report (Except LayoutFault Output) := do
  let code := Layout.code bits p.executable
  let gaps := code.gaps.reverse
  match ← Layout.fillGaps bits p (Layout.workBound p gaps) gaps code with
  | .error fault => return .error fault
  | .ok d =>
    let codeSize := code.words.size
    Report.tell (.milestone (.generated codeSize (d.words.size - codeSize) p.statements.size))
    if memorySize < d.words.size then
      Report.problem (Layout.tooLarge d.words.size memorySize)
    return .ok ⟨d.words, d.placements, p⟩

/-- Lays out a program for settings that nobody has checked. -/
def layoutUnchecked (s : Settings) (p : Program) : Report (Except LayoutFault Output) :=
  if s.wordBits < 0 ∧ p.executable.length ≠ 0 then return .error .negativeWidth
  else layout s.wordBits.toNat s.memorySize p

end NineBit.Asm

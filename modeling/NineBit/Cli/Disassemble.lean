import NineBit.Cli.Action
import NineBit.Cli.Option

/-!
# The disassembler as a tool

Shows an image as instructions, on the first stream or in a file. A symbol file gives names to
addresses.
-/

namespace NineBit.Cli.Disassemble

/-- What is asked of the disassembler. -/
structure Request where
  input : Path
  output : Option Path
  format : Option ImageFormat
  start : Int
  count : Option Int
  symbols : Option Path
  wordBits : Int
  deriving Repr, DecidableEq

/-- The options of the disassembler. -/
def forms : List OptionForm :=
  [⟨"output", some 'o', true⟩, ⟨"format", some 'f', true⟩, ⟨"start", none, true⟩,
    ⟨"count", some 'c', true⟩, ⟨"symbols", some 's', true⟩, ⟨"word-bits", none, true⟩]

/-- The request that arguments make. -/
def Request.ofArguments (files : Files) (a : Arguments) : Option Request := do
  let input ← a.input? files
  let output ← a.output? files "output"
  let format ← a.format? "format"
  let start ← a.integer? "start" 0
  let count ← a.integer? "count" 1
  let symbols ← a.checked? "symbols" (Arguments.existing? files)
  let wordBits ← a.integer? "word-bits" 9
  return { input, output, format, start := start.getD 0, count, symbols,
           wordBits := wordBits.getD 9 }

open NineBit.Cli.Action

/-- The symbols of a file. -/
def readSymbols (host : Host) (path : Path) : Action SymbolTable := do
  let text ← readText path
  ask host (SymbolFile.demands text)
  orFail (.symbols path.text) (SymbolFile.read text)

/-- The words of the image. -/
def prepare (r : Request) : Action (List Int) := do
  let words ← readImage r.input r.format
  whenVerbose (tell s!"Read {words.length} words from {r.input.text}")
  return words

/-- Shows words as instructions. -/
def finish (host : Host) (r : Request) (words : List Int) (symbols : SymbolTable) :
    Action Unit := do
  let lines ← orFail .disassembly (Disassembly.lines symbols words r.start r.count)
  ask host (Disassembly.demands r.wordBits lines)
  let text := Disassembly.render r.wordBits lines
  match r.output with
  | some path =>
    writeText path (text ++ "\n")
    whenVerbose (tell s!"Wrote disassembly to {path.text}")
  | none => say text

/-- Disassembles. -/
def action (host : Host) (r : Request) : Action Unit := do
  let words ← prepare r
  let symbols ←
    match r.symbols with
    | some path => readSymbols host path
    | none => pure []
  finish host r words symbols

end NineBit.Cli.Disassemble

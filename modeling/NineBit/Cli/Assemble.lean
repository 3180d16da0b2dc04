import NineBit.Cli.Action
import NineBit.Cli.Option

/-!
# The assembler as a tool

Assembles a file and writes its image, and a listing and a symbol file if they are asked for. The
image goes next to the source unless another path is given, in the form that the path tells unless
another form is given.
-/

namespace NineBit.Cli.Assemble

/-- What is asked of the assembler. -/
structure Request where
  input : Path
  output : Option Path
  format : Option ImageFormat
  listing : Option Path
  symbols : Option Path
  wordBits : Option Int
  memorySize : Option Int
  deriving Repr, DecidableEq

/-- The options of the assembler. -/
def forms : List OptionForm :=
  [⟨"output", some 'o', true⟩, ⟨"format", some 'f', true⟩, ⟨"listing", some 'l', true⟩,
    ⟨"symbols", some 's', true⟩, ⟨"word-bits", none, true⟩, ⟨"memory-size", none, true⟩]

/-- The request that arguments make. -/
def Request.ofArguments (files : Files) (a : Arguments) : Option Request := do
  let input ← a.input? files
  let output ← a.output? files "output"
  let format ← a.format? "format"
  let listing ← a.output? files "listing"
  let symbols ← a.output? files "symbols"
  let wordBits ← a.integer? "word-bits" 9
  let memorySize ← a.integer? "memory-size" 1
  return { input, output, format, listing, symbols, wordBits, memorySize }

/-- The settings on a host: those of the environment, overridden by the request. -/
def Request.settings (r : Request) (host : Host) (environment : String → Option String) :
    Settings :=
  let base := Settings.ofEnvironment (Settings.legible host environment)
  { base with
    wordBits := r.wordBits.getD base.wordBits
    memorySize := r.memorySize.getD base.memorySize }

/-- Where the image goes, and in which form. -/
def Request.target (r : Request) : Except ImageError (Path × ImageFormat) :=
  match r.output, r.format with
  | some path, some format => .ok (path, format)
  | some path, none => (ImageFormat.infer path path.text).map fun format => (path, format)
  | none, format =>
    let format := format.getD .hex
    .ok ((r.input.withSuffix? s!".{format.name}").getD r.input, format)

/-- A note as a line. -/
def noteLine (n : Note) : String :=
  match n.span with
  | some span => s!"{span.place}: note: {n.message}"
  | none => s!"note: {n.message}"

open NineBit.Cli.Action

/-- Writes a further file and says so. -/
def writeMore (what : String) (path : Path) (text : String) : Action Unit := do
  writeText path text
  whenVerbose (say s!"Wrote {what} to {path.text}")

/-- Assembles a file. -/
def build (host : Host) (config : Config) (r : Request) : Action Asm.Output := do
  let name := r.input.text
  whenVerbose (say s!"Assembling {name}...")
  debug .assembly s!"Assembling {name}"
  let assembly ← assemble host config ⟨name, ← readText r.input⟩
  let image ← assembled assembly name
  whenVerbose (assembly.log.notes.forM fun n => say (noteLine n))
  return image

/-- Writes the image and what else is asked for. -/
def save (host : Host) (config : Config) (r : Request) (path : Path) (format : ImageFormat)
    (image : Asm.Output) : Action Unit := do
  ask host (Image.demands format image.integers config.wordBits)
  writeBytes path (← orFail .image (Image.encode format image.integers config.wordBits))
  debug .assembly s!"Wrote image to {path.text}"
  whenVerbose (say s!"Wrote {image.words.size} words to {path.text}")
  if let some listing := r.listing then
    ask host (image.listingDemands config.wordBits)
    writeMore "listing" listing (image.listing config.wordBits ++ "\n")
  if let some symbols := r.symbols then
    writeMore "symbols" symbols image.symbolFile
  whenVerbose (say s!"Assembly complete: {image.words.size} words")
  whenVerbose (say s!"Defined {image.symbols.length} symbols")

/-- Assembles. -/
def action (host : Host) (environment : String → Option String) (r : Request) : Action Unit := do
  let (path, format) ← orFail .image r.target
  let config ← configure host (r.settings host environment)
  let image ← build host config r
  save host config r path format image

end NineBit.Cli.Assemble

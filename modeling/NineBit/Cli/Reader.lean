import NineBit.Cli.Assemble
import NineBit.Cli.Disassemble
import NineBit.Cli.Run

/-!
# Readers of command lines

What a tool is asked for is read from its arguments before it acts. A reading is a request, or a
line that is said instead, or nothing. How arguments are to be written is up to the reader; of a
lawful one it is known that what is to be read is a file that is there, and that numbers keep the
bounds of their options. The standard reader sorts arguments out by the options of the tools, and a
request for the version or for help comes before everything else.
-/

namespace NineBit.Cli

/-! ## Readings -/

/-- What is read from arguments. -/
inductive Reading (ρ : Type) where
  /-- They make no request. -/
  | misuse
  /-- A line is to be said, and nothing to be done. -/
  | replies (line : String)
  /-- Something is to be done. -/
  | asks (verbose : Bool) (request : ρ)
  deriving Repr, DecidableEq

/-- The reading with something made of the request. -/
def Reading.map {ρ σ : Type} (f : ρ → σ) : Reading ρ → Reading σ
  | misuse => misuse
  | replies line => replies line
  | asks verbose request => asks verbose (f request)

/-- A reader of arguments, which looks at the files that they name. -/
structure Reader where
  assembler : Files → List String → Reading Assemble.Request
  runner : Files → List String → Reading Run.Request
  disassembler : Files → List String → Reading Disassemble.Request

/-- The path is that of a text, at which there is a file. -/
def Files.Names (files : Files) (path : Path) : Prop :=
  ∃ text, files.isFile text = true ∧ path = .ofString text

/-- What requests keep to, whoever reads them. -/
structure Reader.Lawful (reader : Reader) : Prop where
  /-- There is a source to be assembled. -/
  assembler {files : Files} {arguments : List String} {verbose : Bool} {r : Assemble.Request} :
    reader.assembler files arguments = .asks verbose r → files.Names r.input
  /-- There is a program to be run. -/
  runner {files : Files} {arguments : List String} {verbose : Bool} {r : Run.Request} :
    reader.runner files arguments = .asks verbose r → files.Names r.input
  /-- There is an image to be shown, and a symbol file if one is named. It is shown from an address
      on, as words that can hold an instruction. -/
  disassembler {files : Files} {arguments : List String} {verbose : Bool}
    {r : Disassemble.Request} : reader.disassembler files arguments = .asks verbose r →
      files.Names r.input ∧ (∀ path, r.symbols = some path → files.Names path) ∧ 0 ≤ r.start ∧
        9 ≤ r.wordBits

/-! ## The standard reader -/

/-- The tools. -/
inductive Tool where
  | assembler | runner | disassembler
  deriving Repr, DecidableEq

namespace Tool

/-- The name by which a tool is called. -/
def name : Tool → String
  | assembler => "s9basm"
  | runner => "s9brun"
  | disassembler => "s9bdisasm"

/-- The tool of a name. -/
def ofName? (name : String) : Option Tool :=
  [assembler, runner, disassembler].find? fun tool => tool.name == name

/-- The version of the tools. -/
def version : String := "1.0.0"

/-- The options that every tool has. -/
def commonForms : List OptionForm :=
  [⟨"verbose", some 'v', false⟩, ⟨"version", none, false⟩, ⟨"help", none, false⟩]

/-- The options of a tool. -/
def forms : Tool → List OptionForm
  | assembler => Assemble.forms ++ commonForms
  | runner => Run.forms ++ commonForms
  | disassembler => Disassemble.forms ++ commonForms

/-- How a tool is called. -/
def usage (tool : Tool) : String := s!"Usage: {tool.name} [OPTIONS] INPUT_FILE"

/-- Reads arguments by the options of a tool; `request?` is the request that they make. -/
def read {ρ : Type} (tool : Tool) (request? : Arguments → Option ρ) (arguments : List String) :
    Reading ρ :=
  match Arguments.parse tool.forms arguments with
  | none => .misuse
  | some a =>
    match a.options.find? fun given => given.name == "version" || given.name == "help" with
    | some given =>
      .replies (if given.name == "version" then s!"{tool.name}, version {version}" else tool.usage)
    | none =>
      match request? a with
      | none => .misuse
      | some request => .asks (a.has "verbose") request

end Tool

/-- The reader that goes by the options of the tools. -/
def Reader.standard : Reader where
  assembler files := Tool.assembler.read (Assemble.Request.ofArguments files)
  runner files := Tool.runner.read (Run.Request.ofArguments files)
  disassembler files := Tool.disassembler.read (Disassemble.Request.ofArguments files)

end NineBit.Cli

import NineBit.Cli.Reader

/-!
# The tools

Three tools share their way of starting: what they are asked for is read from the arguments, and
then they act in their surroundings. Arguments that make no request are a misuse and change nothing.
-/

namespace NineBit.Cli

/-- How a tool ends. -/
structure Outcome where
  status : Nat
  out : String
  err : String
  files : Files
  /-- The arguments made no request. -/
  misused : Bool
  /-- The tool tells in addition where in itself it failed. -/
  traced : Bool

namespace Outcome

/-- Lines as a text. -/
def lines (ls : Array String) : String := String.join (ls.toList.map (· ++ "\n"))

/-- The end of a tool that was misused. -/
def misuse (files : Files) : Outcome := ⟨2, "", "", files, true, false⟩

/-- The end of a tool that only says something. -/
def saying (files : Files) (line : String) : Outcome := ⟨0, lines #[line], "", files, false, false⟩

/-- The end of an action; `activity` is what the tool does. -/
def ofAction (activity : String) (files : Files) (verbose : Bool) (action : Action Unit) :
    Outcome :=
  match action.run ⟨files, verbose, #[], #[]⟩ with
  | .ok _ s => ⟨0, lines s.out, lines s.err, s.files, false, false⟩
  | .error failure s =>
    let last := Text.plain (failure.line activity)
    ⟨failure.blame.status, lines s.out, lines (s.err.push last), s.files, false,
      verbose && failure.blame == .tool⟩

/-- The end of a tool that was asked for an action. -/
def ofReading (activity : String) (files : Files) : Reading (Action Unit) → Outcome
  | .misuse => misuse files
  | .replies line => saying files line
  | .asks verbose action => ofAction activity files verbose action

end Outcome

namespace Tool

/-- What a tool does, as its error lines call it. -/
def activity : Tool → String
  | assembler => "Assembly"
  | runner => "Run"
  | disassembler => "Disassembly"

/-- What a tool on a host is to do. -/
def task (reader : Reader) (host : Host) (environment : String → Option String) (files : Files)
    (arguments : List String) : Tool → Reading (Action Unit)
  | assembler => (reader.assembler files arguments).map (Assemble.action host environment)
  | runner => (reader.runner files arguments).map (Run.action host environment)
  | disassembler => (reader.disassembler files arguments).map (Disassemble.action host)

/-- Runs a tool on a host, its arguments read by a reader. -/
def executeWith (reader : Reader) (host : Host) (tool : Tool)
    (environment : String → Option String) (files : Files) (arguments : List String) : Outcome :=
  .ofReading tool.activity files (tool.task reader host environment files arguments)

/-- Runs a tool. -/
def execute (tool : Tool) (environment : String → Option String) (files : Files)
    (arguments : List String) : Outcome :=
  tool.executeWith .standard .usual environment files arguments

end Tool

end NineBit.Cli

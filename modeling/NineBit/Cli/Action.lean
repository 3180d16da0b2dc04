import NineBit.Cli.Files
import NineBit.Config
import NineBit.Image
import NineBit.Machine.Session
import NineBit.SymbolFile
import NineBit.Text.Plain
import NineBit.Text.Utf8

/-!
# What tools do

A tool is an action on its surroundings: the files, and what it has written to its two streams. An
action that fails leaves the surroundings as they are at that time, and the failure decides the exit
status and the last lines written. A tool runs on a host, and one more failure is that the host ends
what the tool has begun.
-/

namespace NineBit.Cli

/-- Why a tool fails. -/
inductive Failure where
  /-- An assembly had problems. -/
  | assembly (report : String)
  | config (error : ConfigError)
  | image (error : ImageError)
  | symbols (path : String) (error : SymbolFile.Error)
  /-- Words do not fit the memory. -/
  | memory (fault : Machine.Fault)
  /-- A run came to an end that is no success. -/
  | run (event : Machine.BreakEvent)
  | label (unknown : Machine.UnknownLabel)
  | address (written : String)
  | file (path : String) (fault : FileFault)
  /-- The bytes of a file are no text. -/
  | encoding (error : Text.Utf8Error)
  | layout (fault : Asm.LayoutFault)
  | disassembly (error : Disassembly.Error)
  /-- The host has ended a computation. -/
  | crash (cause : Crash)

/-- Whom a failure is put down to. -/
inductive Blame where
  /-- The material that the tool works on. -/
  | material
  /-- The command line. -/
  | request
  /-- The tool. -/
  | tool
  deriving Repr, DecidableEq

/-- The exit status for a failure. -/
def Blame.status : Blame → Nat
  | material => 1
  | request => 2
  | tool => 3

namespace Failure

/-- Whom a failure is put down to. -/
def blame : Failure → Blame
  | assembly _ | config _ | image _ | memory _ | run _ | symbols _ (.malformed ..) => .material
  | label _ | file _ .missing => .request
  | symbols _ (.noNumber _) | address _ | file _ _ | encoding _ | layout _ | disassembly _
  | crash _ => .tool

/-- The wording of a failure. -/
def message : Failure → String
  | assembly report => report
  | config error => error.message
  | image error => error.message
  | symbols path error => error.message path
  | memory fault => fault.message
  | run event => event.text
  | label unknown => unknown.message
  | address written => Text.invalidNumeral .marked written
  | file path fault => fault.message path
  | encoding error => error.message
  | layout fault => fault.message
  | disassembly error => error.message
  | crash cause => cause.message

/-- What a tool writes last when it fails; `activity` is what the tool does. -/
def line (activity : String) (failure : Failure) : String :=
  match failure, failure.blame with
  | assembly report, _ => report
  | run event, _ => s!"Error: {event.text}"
  | _, .material => s!"{activity} error: {failure.message}"
  | _, .request => s!"Error: {failure.message}"
  | _, .tool => s!"Internal error: {failure.message}"

end Failure

/-- What a tool works in. -/
structure Surroundings where
  files : Files
  /-- The tool tells what it is doing. -/
  verbose : Bool
  out : Array String
  err : Array String

/-- What a tool does. -/
abbrev Action := EStateM Failure Surroundings

/-- The part of the program that a remark comes from. -/
inductive Channel where
  | assembly | layout | processor | session
  deriving Repr, DecidableEq

/-- The name of a channel in remarks. -/
def Channel.name : Channel → String
  | assembly => "s9b_sdk.assembler.assembler"
  | layout => "s9b_sdk.assembler.codegen"
  | processor => "s9b_sdk.emulator.cpu"
  | session => "s9b_sdk.emulator.emulator"

namespace Action

/-- Writes a line to the first stream, without control sequences. -/
def say (line : String) : Action Unit :=
  modify fun s => { s with out := s.out.push (Text.plain line) }

/-- Writes a line to the second stream as it is. -/
def log (line : String) : Action Unit := modify fun s => { s with err := s.err.push line }

/-- Writes a line to the second stream, without control sequences. -/
def tell (line : String) : Action Unit := log (Text.plain line)

/-- An action of a tool that tells what it is doing, and else nothing. -/
def whenVerbose (action : Action Unit) : Action Unit := do
  if (← get).verbose then action

/-- Remarks on progress. -/
def debug (channel : Channel) (text : String) : Action Unit :=
  whenVerbose (log s!"DEBUG: {channel.name}: {text}")

/-- Warns. -/
def warn (channel : Channel) (text : String) : Action Unit := do
  if (← get).verbose then log s!"WARNING: {channel.name}: {text}"
  else log s!"WARNING: {text}"

/-- The value of a result, or a failure. -/
def orFail {ε α : Type} (cause : ε → Failure) : Except ε α → Action α
  | .ok value => return value
  | .error error => throw (cause error)

/-- Makes demands of the host. -/
def ask (host : Host) (demands : List Demand) : Action Unit := orFail .crash (host.meetAll demands)

/-- The configuration of settings. -/
def configure (host : Host) (settings : Settings) : Action Config := do
  orFail .config (← orFail .crash (settings.validateOn host))

/-- The bytes of a file. -/
def readBytes (path : Path) : Action (List UInt8) := do
  orFail (.file path.text) ((← get).files.read path.text)

/-- The text of bytes; every kind of line end becomes a newline. -/
def textOf (bytes : List UInt8) : Action String := do
  let text ← orFail .encoding (Text.decodeUtf8 bytes)
  return String.ofList (Text.unifyNewlines text.toList)

/-- The text of a file. -/
def readText (path : Path) : Action String := do textOf (← readBytes path)

/-- The words of an image file, in the form asked for or else the one the path tells. -/
def readImage (path : Path) (format : Option ImageFormat) : Action (List Int) := do
  let form ←
    match format with
    | some form => pure form
    | none => orFail .image (ImageFormat.infer path path.text)
  let unreadable (fault : FileFault) : Failure :=
    .image (.unreadable path.text (fault.message path.text))
  let bytes ← orFail unreadable ((← get).files.read path.text)
  match form with
  | .hex => orFail .image (Image.decodeHex (← textOf bytes))
  | .bin => orFail .image (Image.decodeBin bytes)

/-- Writes a file. -/
def writeBytes (path : Path) (bytes : List UInt8) : Action Unit := do
  let files ← orFail (.file path.text) ((← get).files.write path.text bytes)
  modify fun s => { s with files := files }

/-- Writes a text to a file. -/
def writeText (path : Path) (text : String) : Action Unit := writeBytes path text.toUTF8.toList

/-- Remarks on a stage that an assembly has passed. -/
def remark : Milestone → Action Unit
  | .lexed tokens definitions => debug .assembly s!"Lexed {tokens} tokens, {definitions} macros"
  | .expanded tokens => debug .assembly s!"Expanded to {tokens} tokens"
  | .parsed statements labels references =>
    debug .assembly
      s!"Parsed {statements} statements, {labels} labels, {references} references"
  | .placed label address =>
    let shown := label.getD "None"
    debug .layout s!"Placing constant {shown} at {address}"
  | .generated code data statements =>
    debug .layout
      s!"Generated {code} code words and {data} data words for {statements} statements"

/-- Assembles a source text on a host. -/
def assemble (host : Host) (config : Config) (source : Source) : Action Asm.Assembly := do
  match Asm.Assembly.onHost host config source with
  | .ok a => return a
  | .error (cause, log) =>
    log.milestones.forM remark
    throw (.crash cause)

/-- Remarks on an assembly. Its image is the result; without one the assembly is the failure. -/
def assembled (a : Asm.Assembly) (name : String) : Action Asm.Output := do
  a.log.milestones.forM remark
  if a.stopped then debug .assembly s!"Stopped after {a.log.problems.size} errors"
  match a.output, a.fault with
  | some output, _ =>
    debug .assembly s!"Assembled {output.words.size} words from {name}"
    return output
  | none, some fault => throw (.layout fault)
  | none, none => throw (.assembly a.log.report)

end Action

end NineBit.Cli

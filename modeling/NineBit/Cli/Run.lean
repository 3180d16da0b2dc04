import NineBit.Cli.Action
import NineBit.Cli.Option

/-!
# The machine as a tool

Runs a program, given as source text or as an image, and prints the words it puts out, one a line.
A fault or a spent budget of ticks is a failure; every other end of the run is a success.
-/

namespace NineBit.Cli.Run

/-- What is asked of the machine. -/
structure Request where
  input : Path
  maxTicks : Option Int
  memorySize : Option Int
  wordBits : Option Int
  breaks : List String
  trace : Bool
  deriving Repr, DecidableEq

/-- The options of the machine. -/
def forms : List OptionForm :=
  [⟨"max-ticks", none, true⟩, ⟨"memory-size", none, true⟩, ⟨"word-bits", none, true⟩,
    ⟨"break", some 'b', true⟩, ⟨"trace", some 't', false⟩]

/-- The request that arguments make. -/
def Request.ofArguments (files : Files) (a : Arguments) : Option Request := do
  let input ← a.input? files
  let maxTicks ← a.integer? "max-ticks" 1
  let memorySize ← a.integer? "memory-size" 1
  let wordBits ← a.integer? "word-bits" 9
  return { input, maxTicks, memorySize, wordBits, breaks := a.values "break",
           trace := a.has "trace" }

/-- The settings on a host: those of the environment, overridden by the request. -/
def Request.settings (r : Request) (host : Host) (environment : String → Option String) :
    Settings :=
  let base := Settings.ofEnvironment (Settings.legible host environment)
  { base with
    maxTicks := r.maxTicks.getD base.maxTicks
    memorySize := r.memorySize.getD base.memorySize
    wordBits := r.wordBits.getD base.wordBits }

open NineBit.Cli.Action

/-- The result of loading a program. -/
def loaded (words : Nat) (result : Machine.Session × Option Machine.Fault) :
    Action Machine.Session := do
  match result with
  | (_, some fault) => throw (.memory fault)
  | (session, none) =>
    debug .processor s!"Loaded {words} words"
    debug .session "Emulator reset"
    return session

/-- Loads the file of a path, an image if the path says so, and tells the number of words. -/
def load (host : Host) (session : Machine.Session) (path : Path) :
    Action (Machine.Session × Nat) := do
  if (ImageFormat.ofPath? path).isSome then
    let words ← readImage path none
    return (← loaded words.length (session.loadWords words), words.length)
  else
    let name := path.text
    let assembly ← assemble host session.config ⟨name, ← readText path⟩
    let image ← assembled assembly name
    return (← loaded image.words.size (session.loadOutput image), image.words.size)

/-- The target of a breakpoint is written as an address. -/
def isAddress (target : String) : Bool :=
  (!target.isEmpty && target.toList.all Text.isDigit) ||
    match target.toList with
    | '0' :: mark :: _ => mark == 'x' || mark == 'X'
    | _ => false

/-- Sets a breakpoint at an address or a label. -/
def breakAt (host : Host) (session : Machine.Session) (target : String) :
    Action Machine.Session := do
  if isAddress target then
    ask host [.numeral (Text.decimalDigits .marked target)]
    match Text.readInt? .marked target with
    | some address => return session.breakAt address
    | none => throw (.address target)
  else
    let (_, session) ← orFail .label (session.breakAtLabel target)
    return session

/-- Remarks on the end of a run. -/
def remark (session : Machine.Session) (event : Machine.BreakEvent) : Action Unit := do
  match event.reason, session.cpu.failure with
  | .fault, some failure =>
    warn .processor s!"CPU fault in {failure.state.name}: {failure.fault.message}"
  | .breakpoint, _ => debug .session s!"Breakpoint at {session.cpu.pc}"
  | _, _ => return

/-- Loads the program into a machine with as much memory as asked for. -/
def prepare (host : Host) (environment : String → Option String) (r : Request) :
    Action Machine.Session := do
  let config ← configure host (r.settings host environment)
  ask host [.sequence config.memorySize]
  let (session, words) ← load host (.initial config) r.input
  whenVerbose (tell s!"Loaded {words} words from {r.input.text}")
  return session

/-- Runs a loaded program and prints what it puts out. -/
def finish (host : Host) (r : Request) (session : Machine.Session) : Action Unit := do
  let (session, event) ← orFail .crash (session.runOn host none)
  remark session event
  session.outputs.forM fun word => say s!"{word}"
  if r.trace then session.traceLines.forM tell
  whenVerbose (tell s!"Stopped after {session.ticks} ticks: {event.text}")
  if event.reason = .fault ∨ event.reason = .budget then throw (.run event)

/-- Runs. -/
def action (host : Host) (environment : String → Option String) (r : Request) : Action Unit := do
  let session ← prepare host environment r
  let session ← r.breaks.foldlM (breakAt host) session
  finish host r session

end NineBit.Cli.Run

import NineBit.Asm.Assembly
import NineBit.Disassembly
import NineBit.Machine.Attempt
import NineBit.Machine.Breakpoint
import NineBit.Machine.Cpu
import NineBit.Machine.Recent

/-!
# Sessions with the machine

A session holds a processor, the program it was given, breakpoints and a trace. The processor only
ever makes micro-steps; a session runs it until it stops, meets a breakpoint or spends a budget of
ticks, and the event that a run ends with says which of these it was.
-/

namespace NineBit.Machine

/-- A message of a tick with the number of the tick and the micro-state it started in. -/
structure TraceEntry where
  tick : Nat
  state : MicroState
  message : Message
  deriving Repr, DecidableEq

/-- A trace entry as a line. -/
def TraceEntry.text (e : TraceEntry) : String :=
  let tick := Text.padLeft 6 s!"{e.tick}"
  let state := Text.padRight 20 e.state.name
  s!"{tick} {state} {e.message.text}"

/-- A label that the program of a session does not have. -/
structure UnknownLabel where
  label : String
  deriving Repr, DecidableEq

/-- The wording for an unknown label. -/
def UnknownLabel.message (u : UnknownLabel) : String := s!"unknown label '{u.label}'"

/-- A session with the machine. -/
structure Session where
  config : Config
  cpu : Cpu
  breakpoints : Breakpoints
  /-- The image that was loaded last, if it came from an assembly. -/
  program : Option Asm.Output
  trace : Recent TraceEntry
  ticks : Nat

namespace Session

/-- A session in which nothing has been loaded. -/
def initial (config : Config) : Session where
  config := config
  cpu := .initial config
  breakpoints := .empty
  program := none
  trace := .empty config.traceLimit
  ticks := 0

/-! ## Loading -/

/-- Starts the processor anew; memory, program and breakpoints stay. -/
def reset (s : Session) : Session :=
  { s with cpu := s.cpu.reset, trace := .empty s.config.traceLimit, ticks := 0 }

/-- Loads words and starts anew. When the words do not fit, the processor stays as it was, but the
    program of the session is the new one all the same. -/
def load (s : Session) (program : Option Asm.Output) (words : List Int) :
    Session × Option Fault :=
  let given := { s with program := program }
  match s.cpu.load words with
  | .ok cpu => ({ given with cpu := cpu }.reset, none)
  | .error fault => (given, some fault)

/-- Loads words that belong to no program. -/
def loadWords (s : Session) (words : List Int) : Session × Option Fault := s.load none words

/-- Loads an image. -/
def loadOutput (s : Session) (output : Asm.Output) : Session × Option Fault :=
  s.load (some output) output.integers

/-- Assembles a source text and loads the image. A source text with problems changes nothing. -/
def loadSource (s : Session) (source : Source) : Session × Asm.Assembly × Option Fault :=
  let assembly := Asm.Assembly.ofSource s.config source
  match assembly.output with
  | none => (s, assembly, none)
  | some output =>
    let (loaded, fault) := s.loadOutput output
    (loaded, assembly, fault)

/-! ## Running -/

/-- After a tick that has led to a processor and reported messages. A tick of a stopped processor
    does not count. -/
def ticked (s : Session) (cpu : Cpu) (messages : List Message) : Session :=
  let ticks := if cpu.running || !messages.isEmpty then s.ticks + 1 else s.ticks
  let trace := messages.foldl (fun log message => log.push ⟨ticks, s.cpu.state, message⟩) s.trace
  { s with cpu := cpu, ticks := ticks, trace := trace }

/-- One tick and what it reports. -/
def step (s : Session) : Session × List Message :=
  let (cpu, messages) := s.cpu.tick
  (s.ticked cpu messages, messages)

/-- Why the processor is not running. -/
def stopEvent (s : Session) : BreakEvent :=
  let address : Option Int := some s.cpu.pc
  match s.cpu.state, s.cpu.failure with
  | .done, _ => ⟨.done, address, ""⟩
  | .pause, _ => ⟨.paused, address, ""⟩
  | .halted, some failure => ⟨.fault, address, failure.fault.message⟩
  | .halted, none => ⟨.halted, address, ""⟩
  | _, _ => ⟨.none, none, ""⟩

/-- The event of a spent budget. -/
def budgetEvent (s : Session) (limit : Int) : BreakEvent :=
  ⟨.budget, some s.cpu.pc, s!"Reached max ticks ({limit})"⟩

/-- The event of a breakpoint at the instruction that would be fetched next. -/
def breakEvent? (s : Session) : Option BreakEvent × Session :=
  if s.cpu.state = .fetch then
    let (event, breakpoints) := s.breakpoints.check s.cpu.pc
    (event, { s with breakpoints := breakpoints })
  else (none, s)

/-- At most so many ticks. The event is that of a breakpoint, if one was met; a breakpoint at the
    first tick is passed over, so that a run can go on from where the last one ended. -/
def advance (s : Session) (first : Bool) : Nat → Session × Option BreakEvent
  | 0 => (s, none)
  | budget + 1 =>
    if !s.cpu.running then (s, none)
    else if first then s.step.1.advance false budget
    else
      match s.breakEvent? with
      | (some event, s) => (s, some event)
      | (none, s) => s.step.1.advance false budget

/-- Runs for at most so many ticks, by default as many as the configuration allows. -/
def run (s : Session) (limit : Option Int) : Session × BreakEvent :=
  let limit := limit.getD s.config.maxTicks
  match s.advance true limit.toNat with
  | (s, some event) => (s, event)
  | (s, none) => (s, if s.cpu.running then s.budgetEvent limit else s.stopEvent)

/-- Goes on after `!done` or `!pause`, if the processor stopped so, and runs. -/
def resume (s : Session) (limit : Option Int) : Session × BreakEvent :=
  { s with cpu := s.cpu.resume }.run limit

/-! ## Running on a host -/

/-- One tick on a host. -/
def stepOn (host : Host) (s : Session) : Except Crash Session :=
  match s.cpu.attempt host with
  | .ok messages cpu => .ok (s.ticked cpu messages)
  | .error crash _ => .error crash

/-- At most so many ticks on a host. The event of a breakpoint tells its address. -/
def advanceOn (host : Host) (s : Session) (first : Bool) :
    Nat → Except Crash (Session × Option BreakEvent)
  | 0 => .ok (s, none)
  | budget + 1 =>
    if !s.cpu.running then .ok (s, none)
    else
      match if first then (none, s) else s.breakEvent? with
      | (some event, s) => (host.meet (.decimal s.cpu.pc)).map fun _ => (s, some event)
      | (none, s) => do (← s.stepOn host).advanceOn host false budget

/-- Runs on a host. The event of a spent budget tells the limit. -/
def runOn (host : Host) (s : Session) (limit : Option Int) : Except Crash (Session × BreakEvent) :=
  let limit := limit.getD s.config.maxTicks
  match s.advanceOn host true limit.toNat with
  | .error crash => .error crash
  | .ok (s, some event) => .ok (s, event)
  | .ok (s, none) =>
    if s.cpu.running then (host.meet (.decimal limit)).map fun _ => (s, s.budgetEvent limit)
    else .ok (s, s.stopEvent)

/-! ## Breakpoints -/

/-- The address of a label of the program. -/
def addressOf? (s : Session) (label : String) : Option Nat :=
  s.program.bind fun output => output.addressOf? label

/-- Sets a breakpoint at an address. -/
def breakAt (s : Session) (address : Int) : Session :=
  { s with breakpoints := s.breakpoints.insert address }

/-- Sets a breakpoint at a label of the program, and tells its address. -/
def breakAtLabel (s : Session) (label : String) : Except UnknownLabel (Nat × Session) :=
  match s.addressOf? label with
  | some address => .ok (address, s.breakAt address)
  | none => .error ⟨label⟩

/-- Takes a breakpoint away. -/
def unbreak (s : Session) (address : Int) : Session :=
  { s with breakpoints := s.breakpoints.erase address }

/-- Takes all breakpoints away, and forgets the last event. -/
def clearBreakpoints (s : Session) : Session := { s with breakpoints := .empty }

/-! ## Inspection -/

/-- The words written to `out` since the last reset. -/
def outputs (s : Session) : List Nat := s.cpu.outputs.toList

/-- The trace as lines, oldest first. -/
def traceLines (s : Session) : List String := s.trace.toList.map TraceEntry.text

/-- The word at an address. -/
def read (s : Session) (address : Int) : Except Fault Nat := s.cpu.datapath.memory.read address

/-- Some words of the memory. -/
def dump (s : Session) (address : Int) (count : Int) : List Nat :=
  s.cpu.datapath.memory.dump address (some count)

/-- Writes a word to an address. -/
def write (s : Session) (address value : Int) : Except Fault Session :=
  (s.cpu.datapath.writeMemory address value).map fun datapath =>
    { s with cpu := { s.cpu with datapath := datapath } }

/-- The number of bits whose digits a disassembly of the memory shows. -/
def shownBits : Int := 9

/-- Some lines of a disassembly of the memory. -/
def disassemble (s : Session) (address count : Int) : Except Disassembly.Error (List String) :=
  let words := s.cpu.datapath.memory.cells.toList.map fun (w : Nat) => (w : Int)
  (Disassembly.lines [] words address (some count)).map (·.map (Disassembly.Line.render shownBits))

/-- The word for a truth value in summaries. -/
def truth (b : Bool) : String := if b then "True" else "False"

/-- A summary of the processor. -/
def cpuSummary (s : Session) : String :=
  let cpu := s.cpu
  let data := cpu.datapath
  s!"S9BCPU(state={cpu.state.name}, pc={cpu.pc}, sp={cpu.sp}, running={truth cpu.running}, " ++
    s!"skip={truth cpu.skip}, zero={truth data.zero}, carry={truth data.carry})"

/-- A summary of the session. -/
def summary (s : Session) : String :=
  s!"Emulator(state={s.cpu.state.name}, pc={s.cpu.pc}, ticks={s.ticks}, " ++
    s!"outputs={s.outputs.length})"

end Session

end NineBit.Machine

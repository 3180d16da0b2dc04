import NineBit.Isa.Opcode
import NineBit.Machine.Datapath
import NineBit.Config

/-!
# The micro-step processor

The processor goes through micro-states, one a tick. An instruction is fetched, its operands are
loaded, a memory source is buffered, the value is moved, a memory destination is flushed, and the
program counter advances. A fault stops the processor with whatever the faulting micro-step had
touched before; the only thing that goes on from a stop is a resumption after `!done` or `!pause`,
or a reset.
-/

namespace NineBit.Machine

/-- What the next tick does. -/
inductive MicroState where
  | reset | fetch | skipTwo | skipOne | condition | action | done | pause | halted | movement
  | sourceOperand | sourceOperandLoad | destinationOperand | destinationOperandLoad
  | movementFetch | movementMove | movementFlush | finish
  deriving Repr, DecidableEq, Inhabited

/-- The name of a micro-state in traces. -/
def MicroState.name : MicroState → String
  | reset => "reset"
  | fetch => "fetch"
  | skipTwo => "skip2"
  | skipOne => "skip1"
  | condition => "condition"
  | action => "action"
  | done => "done"
  | pause => "pause"
  | halted => "halted"
  | movement => "movement"
  | sourceOperand => "movement/inp_arg"
  | sourceOperandLoad => "movement/inp_arg+1"
  | destinationOperand => "movement/out_arg"
  | destinationOperandLoad => "movement/out_arg+1"
  | movementFetch => "movement/fetch"
  | movementMove => "movement/move"
  | movementFlush => "movement/flush"
  | finish => "finish"

/-- What a tick reports. -/
inductive Message where
  | reset
  | skipped (word address : Nat)
  | fetched (word address : Nat) (kind : Isa.Kind)
  | tested (met : Bool)
  | operated (op : Isa.Operation) (r : Isa.Register)
  | popped
  | stopped (control : Isa.Control)
  | resumed
  | loadingSourceOperand
  | loadedSourceOperand (value : Nat)
  | loadingDestinationOperand
  | loadedDestinationOperand (value : Nat)
  | buffered (value address : Nat)
  | moved (value : Nat) (source : Isa.Source) (destination : Isa.Destination)
  | output (value : Nat)
  | saved (value address : Nat) (onStack : Bool)
  | fault (f : Fault)
  deriving Repr, DecidableEq

/-- The wording of a message. -/
def Message.text : Message → String
  | reset => "[OUT] Reset"
  | skipped word address => s!"[INT] Fetched inst {word} from {address}, skipped"
  | fetched word address kind => s!"[INT] Fetched inst {word} from {address}, is {kind.name}"
  | tested met => if met then "[RUN] Condition met" else "[RUN] Condition not met"
  | operated op r => "[RUN] " ++ (Isa.Action.register op r).text
  | popped => "[RUN] Popped stack"
  | stopped .done => "[OUT] Done"
  | stopped .pause => "[OUT] Paused"
  | stopped _ => "[OUT] Halted"
  | resumed => "[RUN] Resumed"
  | loadingSourceOperand => "[INT] Loading input argument"
  | loadedSourceOperand value => s!"[INT] Loaded {value} into M"
  | loadingDestinationOperand => "[INT] Loading output argument"
  | loadedDestinationOperand value => s!"[INT] Loaded {value} into N"
  | buffered value address => s!"[INT] Loaded value {value} from {address} to memory buffer"
  | moved value source destination =>
    s!"[RUN] Moved {value} from {source.name} to {destination.name}"
  | output value => s!"[OUT] Output {value}"
  | saved value address onStack =>
    if onStack then s!"[INT] Saved value {value} into stack at {address}"
    else s!"[INT] Saved value {value} into {address}"
  | fault f => "[ERR] " ++ f.message

/-- A fault and the micro-state it arose in. -/
structure Failure where
  state : MicroState
  fault : Fault
  deriving Repr, DecidableEq

/-- The processor with its memory. -/
structure Cpu where
  datapath : Datapath
  state : MicroState
  running : Bool
  skip : Bool
  outputs : Array Nat
  failure : Option Failure
  deriving Repr, DecidableEq

namespace Cpu

/-- A processor that was never reset. -/
def initial (config : Config) : Cpu where
  datapath := .initial config.wordBits config.memorySize
  state := .reset
  running := false
  skip := false
  outputs := #[]
  failure := none

/-- The program counter. -/
def pc (cpu : Cpu) : Nat := cpu.datapath.cells.pc

/-- The stack pointer. -/
def sp (cpu : Cpu) : Nat := cpu.datapath.cells.stack

/-- Clears the memory and puts words into it from address zero on. -/
def load (cpu : Cpu) (words : List Int) : Except Fault Cpu :=
  (cpu.datapath.loadMemory words 0).map fun datapath => { cpu with datapath := datapath }

/-- Sets everything but the memory back and starts running. -/
def reset (cpu : Cpu) : Cpu where
  datapath := cpu.datapath.reset
  state := .reset
  running := true
  skip := false
  outputs := #[]
  failure := none

/-- The processor stopped where it can be resumed. -/
def resumable (cpu : Cpu) : Bool := !cpu.running && (cpu.state == .done || cpu.state == .pause)

/-- Goes on after `!done` or `!pause`; in any other case nothing changes. -/
def resume (cpu : Cpu) : Cpu := if cpu.resumable then { cpu with running := true } else cpu

/-! ## Micro-steps

A micro-step changes the processor and may fault; the changes before a fault stay. -/

/-- A micro-step or a part of one. -/
abbrev Micro := EStateM Fault Cpu

namespace Micro

/-- Uses the datapath for a value. -/
def use {α : Type} (f : Datapath → α × Datapath) : Micro α :=
  modifyGet fun cpu =>
    let result := f cpu.datapath
    (result.1, { cpu with datapath := result.2 })

/-- Changes the datapath. -/
def change (f : Datapath → Datapath) : Micro Unit :=
  modify fun cpu => { cpu with datapath := f cpu.datapath }

/-- Reads a cell. -/
def readCell (cell : Cell) : Micro Nat := use fun p => p.readCell cell

/-- Writes a cell. -/
def writeCell (cell : Cell) (value : Nat) : Micro Unit := change fun p => p.writeCell cell value

/-- Applies an operation to a cell. -/
def operate (cell : Cell) (op : Isa.Operation) : Micro Unit := change fun p => p.operateCell cell op

/-- Evaluates a combinator. -/
def evaluate (k : Combinator) : Micro Nat := use fun p => p.evaluate k

/-- Reads the memory. -/
def readMemory (address : Nat) : Micro Nat := fun cpu =>
  match cpu.datapath.readMemory address with
  | .ok (word, datapath) => .ok word { cpu with datapath := datapath }
  | .error fault => .error fault cpu

/-- Writes the memory. -/
def writeMemory (address value : Nat) : Micro Unit := fun cpu =>
  match cpu.datapath.writeMemory address value with
  | .ok datapath => .ok () { cpu with datapath := datapath }
  | .error fault => .error fault cpu

/-- The instruction that is being executed. -/
def instruction : Micro Nat := readCell .instruction

/-- The value of a condition's target. -/
def test (target : Isa.Target) : Micro Bool :=
  match target with
  | .zeroFlag => return (← get).datapath.zero
  | .carryFlag => return (← get).datapath.carry
  | .a => return (← readCell .a) == 0
  | .b => return (← readCell .b) == 0
  | .c => return (← readCell .c) == 0

/-- The value of a movement's source, a memory source having been buffered before. -/
def readSource (source : Isa.Source) : Micro Nat :=
  match source with
  | .zero => return 0
  | .sum => evaluate .adder
  | .sub => evaluate .subtractor
  | .and => evaluate .and
  | .or => evaluate .or
  | .xor => evaluate .xor
  | .memAt | .mem | .stackAt | .stack => readCell .buffer
  | .a => readCell .a
  | .b => readCell .b
  | .c => readCell .c
  | .d => readCell .d
  | .stackptrAt => evaluate .stackRead
  | .literal => readCell .m

/-- The next micro-state and what the step reports. -/
abbrev Step := Micro (MicroState × List Message)

/-- Starts at address zero with the stack pointer on the last address. -/
def resetStep : Step := do
  writeCell .pc 0
  writeCell .stack ((← get).datapath.memory.size - 1)
  return (.fetch, [.reset])

/-- Fetches an instruction word; a skipped one is only measured. -/
def fetchStep : Step := do
  let address ← readCell .pc
  let word ← readMemory address
  writeCell .instruction word
  if (← get).skip then
    modify fun cpu => { cpu with skip := false }
    let next :=
      match Isa.operandCount word with
      | 0 => MicroState.finish
      | 1 => .skipOne
      | _ => .skipTwo
    return (next, [.skipped word address])
  else
    match Isa.kind? word with
    | none => throw (.noInstruction word address)
    | some .movement =>
      if (Isa.destination? word).isNone then throw (.noInstruction word address)
      return (.movement, [.fetched word address .movement])
    | some .condition => return (.condition, [.fetched word address .condition])
    | some .action => return (.action, [.fetched word address .action])

/-- Tests a condition; one that is not met makes the next instruction a skipped one. -/
def conditionStep : Step := do
  let condition := Isa.condition (← instruction)
  let results ← condition.targets.mapM test
  let combined := if condition.anyOf then results.any id else results.all id
  let met := combined != condition.invert
  unless met do
    modify fun cpu => { cpu with skip := true }
  return (.finish, [.tested met])

/-- Stops in a micro-state. -/
def stop (state : MicroState) (control : Isa.Control) : Step := do
  modify fun cpu => { cpu with running := false }
  return (state, [.stopped control])

/-- Performs an action. -/
def actionStep : Step := do
  let word ← instruction
  match Isa.action? word with
  | none => throw (.noAction word (← get).pc)
  | some (.register op r) =>
    operate (.ofRegister r) op
    return (.finish, [.operated op r])
  | some (.control .pop) =>
    operate .stack .increment
    return (.finish, [.popped])
  | some (.control .done) => stop .done .done
  | some (.control .pause) => stop .pause .pause
  | some (.control .halt) => stop .halted .halt

/-- Where a movement goes on after its source operand. -/
def afterSourceOperand (word : Nat) : MicroState :=
  if ((Isa.destination? word).map Isa.Destination.takesWord).getD false then .destinationOperand
  else .movementFetch

/-- Starts a movement with its operands. -/
def movementStep : Step := do
  let word ← instruction
  return (if (Isa.source word).takesWord then .sourceOperand else afterSourceOperand word, [])

/-- Reads the word that the program counter shows. -/
def readOperand : Micro Nat := do
  let address ← readCell .pc
  readMemory address

/-- Loads the source operand. -/
def sourceOperandStep : Step := do
  let value ← readOperand
  writeCell .m value
  return (afterSourceOperand (← instruction), [.loadedSourceOperand value])

/-- Loads the destination operand. -/
def destinationOperandStep : Step := do
  let value ← readOperand
  writeCell .n value
  return (.movementFetch, [.loadedDestinationOperand value])

/-- Buffers the word at an address. -/
def bufferFrom (address : Nat) : Step := do
  let value ← readMemory address
  writeCell .buffer value
  return (.movementMove, [.buffered value address])

/-- Buffers a memory source. -/
def movementFetchStep : Step := do
  match Isa.source (← instruction) with
  | .memAt | .mem => bufferFrom (← readCell .m)
  | .stackAt | .stack => bufferFrom (← evaluate .stackRead)
  | _ => return (.movementMove, [])

/-- Puts a value into a cell. -/
def moveInto (cell : Cell) (value : Nat) (messages : List Message) : Step := do
  writeCell cell value
  return (.finish, messages)

/-- Buffers a value for a memory destination. -/
def moveToMemory (value : Nat) (messages : List Message) : Step := do
  writeCell .buffer value
  return (.movementFlush, messages)

/-- Puts the value of a source into a destination, or into the buffer for a memory destination. -/
def deliver (source : Isa.Source) (value : Nat) (place : Option Isa.Destination) : Step := do
  match place with
  | none => return (.finish, [])
  | some destination =>
    let messages := [Message.moved value source destination]
    match destination with
    | .memAt | .mem | .stackAt | .stack => moveToMemory value messages
    | .push =>
      writeCell .buffer value
      operate .stack .decrement
      writeCell .n 0
      return (.movementFlush, messages)
    | .pc =>
      writeCell .pc value
      return (.fetch, messages)
    | .out =>
      modify fun cpu => { cpu with outputs := cpu.outputs.push value }
      return (.finish, messages ++ [.output value])
    | .a => moveInto .a value messages
    | .b => moveInto .b value messages
    | .c => moveInto .c value messages
    | .d => moveInto .d value messages
    | .m => moveInto .m value messages
    | .n => moveInto .n value messages
    | .nul => return (.finish, messages)

/-- Moves the value of the source to the destination. -/
def movementMoveStep : Step := do
  let word ← instruction
  let source := Isa.source word
  let value ← readSource source
  deliver source value (Isa.destination? word)

/-- Writes the buffer to an address. -/
def flushTo (address : Nat) (onStack : Bool) : Step := do
  let value ← readCell .buffer
  writeMemory address value
  return (.finish, [.saved value address onStack])

/-- Writes the buffer to the memory destination. -/
def movementFlushStep : Step := do
  match Isa.destination? (← instruction) with
  | some .memAt | some .mem => flushTo (← readCell .n) false
  | _ => flushTo (← evaluate .stackWrite) true

/-- Advances the program counter. -/
def advance (next : MicroState) (messages : List Message) : Step := do
  operate .pc .increment
  return (next, messages)

/-- The micro-step of a micro-state. -/
def step (state : MicroState) : Step :=
  match state with
  | .reset => resetStep
  | .fetch => fetchStep
  | .skipTwo => advance .skipOne []
  | .skipOne => advance .finish []
  | .condition => conditionStep
  | .action => actionStep
  | .done | .pause => return (.finish, [.resumed])
  | .halted => do
    modify fun cpu => { cpu with running := false }
    return (.halted, [])
  | .movement => movementStep
  | .sourceOperand => advance .sourceOperandLoad [.loadingSourceOperand]
  | .sourceOperandLoad => sourceOperandStep
  | .destinationOperand => advance .destinationOperandLoad [.loadingDestinationOperand]
  | .destinationOperandLoad => destinationOperandStep
  | .movementFetch => movementFetchStep
  | .movementMove => movementMoveStep
  | .movementFlush => movementFlushStep
  | .finish => advance .fetch []

end Micro

/-- Clears the marks of the last tick. -/
def clearMarks (cpu : Cpu) : Cpu := { cpu with datapath := cpu.datapath.clearMarks }

/-- One micro-step, unless the processor is stopped, and what it reports. -/
def tick (cpu : Cpu) : Cpu × List Message :=
  if !cpu.running then (cpu.clearMarks, [])
  else
    match (Micro.step cpu.state).run cpu.clearMarks with
    | .ok (state, messages) next => ({ next with state := state }, messages)
    | .error fault next =>
      ({ next with failure := some ⟨cpu.state, fault⟩, running := false, state := .halted },
        [.fault fault])

end Cpu

end NineBit.Machine

import NineBit.Host
import NineBit.Machine.Cpu

/-!
# Ticks on a host

A micro-step finds what it needs in tables, by what it reads from the word it executes, and it
writes numbers into its messages and into the wording of its faults. On a host it breaks off where a
table has no entry, or where a number has more digits than are written. The processor is left as it
is then, in the midst of the micro-step, and the messages are lost. The micro-steps are given here
once more, with their lookups, and with the numbers at the point where they are written.
-/

namespace NineBit.Machine

/-- The numbers in the wording of a fault. -/
def Fault.numbers : Fault → List Int
  | .noInstruction word address | .noAction word address => [(word : Int), (address : Int)]
  | .range address size => [address, size]

/-- The numbers in the wording of a message. -/
def Message.numbers : Message → List Int
  | skipped word address | fetched word address _ => [(word : Int), (address : Int)]
  | loadedSourceOperand value | loadedDestinationOperand value => [(value : Int)]
  | buffered value address | saved value address _ => [(value : Int), (address : Int)]
  | moved value _ _ | output value => [(value : Int)]
  | fault f => f.numbers
  | reset | tested _ | operated .. | popped | stopped _ | resumed | loadingSourceOperand
  | loadingDestinationOperand => []

namespace Cpu

/-- Why a micro-step does not come to its end. -/
inductive Halt where
  | fault (fault : Fault)
  | crash (crash : Crash)
  deriving Repr, DecidableEq

/-- A micro-step on a host or a part of one. -/
abbrev Attempt := EStateM Halt Cpu

namespace Attempt

open Isa (Destination Register Operation)

/-! ## Parts -/

/-- Writes numbers in decimal. -/
def write (host : Host) (numbers : List Int) : Attempt Unit := fun cpu =>
  match host.meetAll (numbers.map .decimal) with
  | .ok () => .ok () cpu
  | .error crash => .error (.crash crash) cpu

/-- Faults, with the wording of the fault written. -/
def raise {α : Type} (host : Host) (fault : Fault) : Attempt α := do
  write host fault.numbers
  throw (.fault fault)

/-- A part that looks nothing up and writes nothing, unless it faults. -/
def take {α : Type} (host : Host) (part : Micro α) : Attempt α := fun cpu =>
  match part.run cpu with
  | .ok value next => .ok value next
  | .error fault next => (raise host fault).run next

/-- The entry of a table for a key, which is shown so. -/
def find {κ α : Type} [BEq κ] (table : List (κ × α)) (key : κ) (shown : String) : Attempt α :=
  match table.lookup key with
  | some value => return value
  | none => throw (.crash (.entry shown))

/-- The element of a row at a place. -/
def element {α : Type} (row : List α) (place : Nat) : Attempt α :=
  match row[place]? with
  | some value => return value
  | none => throw (.crash .element)

/-! ## Tables -/

/-- The sources by their codes. -/
def sources : List (Nat × Isa.Source) := Isa.Source.all.map fun source => (source.code, source)

/-- The source that a word names. -/
def sourceOf (word : Nat) : Attempt Isa.Source :=
  let code := word / 16 % 16
  find sources code s!"{code * 16}"

/-- The cells of registers by their names. -/
def registerCells : List (String × Cell) :=
  [("a", .a), ("b", .b), ("c", .c), ("d", .d), ("m", .m), ("n", .n)]

/-- The cell of the register with a name. -/
def cellOf (name : String) : Attempt Cell := find registerCells name s!"'{name}'"

/-- The names of the registers that actions work on, by their codes. -/
def registerNames : List (Nat × String) :=
  Register.all.map fun r => (r.code, String.singleton r.letter)

/-- The cell that the action of a word works on. -/
def operandOf (word : Nat) : Attempt Cell := do
  cellOf (← find registerNames (word % 4) s!"{word % 4}")

/-- The operations by their names. -/
def operations : List (String × Operation) :=
  Operation.all.map fun op => (String.singleton op.symbol, op)

/-- The operation with a name. -/
def operationOf (name : String) : Attempt Operation :=
  match operations.lookup name with
  | some op => return op
  | none => throw (.crash (.operation name))

/-- The micro-states that fetched words lead to, by the kinds of the words. -/
def kinds : List (Isa.Kind × MicroState) :=
  [(.movement, .movement), (.condition, .condition), (.action, .action)]

/-- The micro-states after a skipped word, by the number of its operands. -/
def skips : List MicroState := [.finish, .skipOne, .skipTwo]

/-! ## Micro-steps -/

/-- The next micro-state and what the step reports. -/
abbrev Step := Attempt (MicroState × List Message)

/-- The number of words that follow an instruction word as its operands. -/
def countOperands (word : Nat) : Attempt Nat := do
  if Isa.kind? word = some .movement then
    let source ← sourceOf word
    return (if source.takesWord then 1 else 0) +
      (if ((Isa.destination? word).map Destination.takesWord).getD false then 1 else 0)
  else return 0

/-- Fetches an instruction word. -/
def fetchStep (host : Host) : Step := do
  let address ← take host (Micro.readCell .pc)
  let word ← take host (Micro.readMemory address)
  take host (Micro.writeCell .instruction word)
  if (← get).skip then
    modify fun cpu => { cpu with skip := false }
    write host [word, address]
    let next ← element skips (← countOperands word)
    return (next, [.skipped word address])
  else
    match Isa.kind? word with
    | none => raise host (.noInstruction word address)
    | some kind =>
      if kind = .movement ∧ (Isa.destination? word).isNone then
        raise host (.noInstruction word address)
      else
        write host [word, address]
        let next ← find kinds kind kind.name
        return (next, [.fetched word address kind])

/-- The value of a condition's target. -/
def test (host : Host) (target : Isa.Target) : Attempt Bool := do
  match target with
  | .zeroFlag => return (← get).datapath.zero
  | .carryFlag => return (← get).datapath.carry
  | target =>
    let cell ← cellOf (String.singleton target.letter)
    return (← take host (Micro.readCell cell)) == 0

/-- Tests a condition. -/
def conditionStep (host : Host) : Step := do
  let condition := Isa.condition (← take host Micro.instruction)
  let results ← condition.targets.mapM (test host)
  let combined := if condition.anyOf then results.any id else results.all id
  let met := combined != condition.invert
  unless met do
    modify fun cpu => { cpu with skip := true }
  return (.finish, [.tested met])

/-- Performs an action. -/
def actionStep (host : Host) : Step := do
  let word ← take host Micro.instruction
  match Isa.action? word with
  | none => raise host (.noAction word (← get).pc)
  | some (.register op r) =>
    let cell ← operandOf word
    let operation ← operationOf (String.singleton op.symbol)
    take host (Micro.operate cell operation)
    return (.finish, [.operated op r])
  | some (.control .pop) =>
    take host (Micro.operate .stack .increment)
    return (.finish, [.popped])
  | some (.control .done) => take host (Micro.stop .done .done)
  | some (.control .pause) => take host (Micro.stop .pause .pause)
  | some (.control .halt) => take host (Micro.stop .halted .halt)

/-- Starts a movement with its operands. -/
def movementStep (host : Host) : Step := do
  let word ← take host Micro.instruction
  let source ← sourceOf word
  return (if source.takesWord then .sourceOperand else Micro.afterSourceOperand word, [])

/-- Loads the source operand. -/
def sourceOperandStep (host : Host) : Step := do
  let value ← take host Micro.readOperand
  take host (Micro.writeCell .m value)
  write host [value]
  let word ← take host Micro.instruction
  return (Micro.afterSourceOperand word, [.loadedSourceOperand value])

/-- Loads the destination operand. -/
def destinationOperandStep (host : Host) : Step := do
  let value ← take host Micro.readOperand
  take host (Micro.writeCell .n value)
  write host [value]
  return (.movementFetch, [.loadedDestinationOperand value])

/-- Buffers the word at an address. -/
def bufferFrom (host : Host) (address : Nat) : Step := do
  let value ← take host (Micro.readMemory address)
  take host (Micro.writeCell .buffer value)
  write host [value, address]
  return (.movementMove, [.buffered value address])

/-- Buffers a memory source. -/
def movementFetchStep (host : Host) : Step := do
  match ← sourceOf (← take host Micro.instruction) with
  | .memAt | .mem => bufferFrom host (← take host (Micro.readCell .m))
  | .stackAt | .stack => bufferFrom host (← take host (Micro.evaluate .stackRead))
  | _ => return (.movementMove, [])

/-- Moves the value of the source to the destination. What is put out is written once more. -/
def movementMoveStep (host : Host) : Step := do
  let word ← take host Micro.instruction
  let source ← sourceOf word
  let value ← take host (Micro.readSource source)
  write host [value]
  match Isa.destination? word with
  | some .out =>
    let result ← take host (Micro.deliver source value (some .out))
    write host [value]
    return result
  | place => take host (Micro.deliver source value place)

/-- Writes the buffer to an address. -/
def flushTo (host : Host) (address : Nat) (onStack : Bool) : Step := do
  write host [address]
  let value ← take host (Micro.readCell .buffer)
  take host (Micro.writeMemory address value)
  write host [value]
  return (.finish, [.saved value address onStack])

/-- Writes the buffer to the memory destination. -/
def movementFlushStep (host : Host) : Step := do
  match Isa.destination? (← take host Micro.instruction) with
  | some .memAt | some .mem => flushTo host (← take host (Micro.readCell .n)) false
  | _ => flushTo host (← take host (Micro.evaluate .stackWrite)) true

/-- The micro-step of a micro-state. The ones that neither look up nor write are taken as they
    are. -/
def step (host : Host) (state : MicroState) : Step :=
  match state with
  | .fetch => fetchStep host
  | .condition => conditionStep host
  | .action => actionStep host
  | .movement => movementStep host
  | .sourceOperandLoad => sourceOperandStep host
  | .destinationOperandLoad => destinationOperandStep host
  | .movementFetch => movementFetchStep host
  | .movementMove => movementMoveStep host
  | .movementFlush => movementFlushStep host
  | .reset | .skipTwo | .skipOne | .done | .pause | .halted | .sourceOperand
  | .destinationOperand | .finish => take host (Micro.step state)

end Attempt

/-- One micro-step on a host, unless the processor is stopped, and what it reports. A crash leaves
    the processor in the midst of it. -/
def attempt (host : Host) (cpu : Cpu) : EStateM.Result Crash Cpu (List Message) :=
  if !cpu.running then .ok [] cpu.clearMarks
  else
    match (Attempt.step host cpu.state).run cpu.clearMarks with
    | .ok (state, messages) next => .ok messages { next with state := state }
    | .error (.fault fault) next =>
      .ok [.fault fault]
        { next with failure := some ⟨cpu.state, fault⟩, running := false, state := .halted }
    | .error (.crash crash) next => .error crash next

end Cpu

end NineBit.Machine

import NineBit.Proofs.Machine.Consistency
import NineBit.Proofs.Machine.MicroStep

/-!
# Micro-steps make instructions

A processor in the midst of an instruction has some part of it left (`Remains`). A tick does the
first piece of that part: what is left afterwards ends in the same `Architecture`, in fewer ticks
(`Remains.tick`). By induction on the ticks left, a running processor that is about to fetch comes
to its next fetch or stops within ten ticks, and what a program sees then is one `Exec.step`.
-/

namespace NineBit.Machine

namespace Cpu

/-- The processor after some ticks. -/
def ticks (cpu : Cpu) : Nat → Cpu
  | 0 => cpu
  | n + 1 => cpu.tick.1.ticks n

/-- The processor is about to fetch, or has stopped. -/
def Settled (cpu : Cpu) : Prop := cpu.state = .fetch ∨ cpu.running = false

instance (cpu : Cpu) : Decidable cpu.Settled := inferInstanceAs (Decidable (_ ∨ _))

variable {cpu next : Cpu}

/-- The instruction being executed is a movement. -/
structure Decodes (cpu : Cpu) (source : Isa.Source) (destination : Isa.Destination) : Prop where
  source : Isa.source cpu.datapath.cells.instruction = source
  destination : Isa.destination? cpu.datapath.cells.instruction = some destination

theorem Decodes.of_eq {source : Isa.Source} {destination : Isa.Destination}
    (decoded : cpu.Decodes source destination)
    (same : next.datapath.cells.instruction = cpu.datapath.cells.instruction) (state : MicroState) :
    { next with state := state }.Decodes source destination where
  source := by
    show Isa.source next.datapath.cells.instruction = source
    rw [same, decoded.source]
  destination := by
    show Isa.destination? next.datapath.cells.instruction = some destination
    rw [same, decoded.destination]

open Exec in
/-- What is left of the instruction that a processor is at, and a bound on the ticks for it. -/
inductive Remains (cpu : Cpu) : Nat → Exec Unit → Prop where
  | skipTwo (state : cpu.state = .skipTwo) : Remains cpu 3 (advance 3)
  | skipOne (state : cpu.state = .skipOne) : Remains cpu 2 (advance 2)
  | finish (state : cpu.state = .finish) : Remains cpu 1 (advance 1)
  | condition (state : cpu.state = .condition) :
      Remains cpu 2 (condition (Isa.condition cpu.datapath.cells.instruction))
  | action {x : Isa.Action} (state : cpu.state = .action)
      (decoded : Isa.action? cpu.datapath.cells.instruction = some x) : Remains cpu 2 (action x)
  | noAction (state : cpu.state = .action)
      (decoded : Isa.action? cpu.datapath.cells.instruction = none) :
      Remains cpu 2 (throw (.noAction cpu.datapath.cells.instruction cpu.datapath.cells.pc))
  | movement {source : Isa.Source} {destination : Isa.Destination} (state : cpu.state = .movement)
      (decoded : cpu.Decodes source destination) : Remains cpu 9 (movement source destination)
  | sourceOperand {source : Isa.Source} {destination : Isa.Destination}
      (state : cpu.state = .sourceOperand) (decoded : cpu.Decodes source destination) :
      Remains cpu 8 (do advance 1; operandM; moveFromN source destination)
  | sourceOperandLoad {source : Isa.Source} {destination : Isa.Destination}
      (state : cpu.state = .sourceOperandLoad) (decoded : cpu.Decodes source destination) :
      Remains cpu 7 (do operandM; moveFromN source destination)
  | destinationOperand {source : Isa.Source} {destination : Isa.Destination}
      (state : cpu.state = .destinationOperand) (decoded : cpu.Decodes source destination) :
      Remains cpu 6 (do advance 1; operandN; move source destination)
  | destinationOperandLoad {source : Isa.Source} {destination : Isa.Destination}
      (state : cpu.state = .destinationOperandLoad) (decoded : cpu.Decodes source destination) :
      Remains cpu 5 (do operandN; move source destination)
  | movementFetch {source : Isa.Source} {destination : Isa.Destination}
      (state : cpu.state = .movementFetch) (decoded : cpu.Decodes source destination) :
      Remains cpu 4 (move source destination)
  | moveDirect {source : Isa.Source} {destination : Isa.Destination}
      (state : cpu.state = .movementMove) (decoded : cpu.Decodes source destination)
      (direct : buffered source = false) : Remains cpu 3 (move source destination)
  | moveBuffered {source : Isa.Source} {destination : Isa.Destination}
      (state : cpu.state = .movementMove) (decoded : cpu.Decodes source destination)
      (memory : buffered source = true) : Remains cpu 3 (put cpu.datapath.cells.buffer destination)
  | flush {destination : Isa.Destination} (state : cpu.state = .movementFlush)
      (decoded : Isa.destination? cpu.datapath.cells.instruction = some destination) :
      Remains cpu 2 (put cpu.datapath.cells.buffer (Micro.flushPlace destination))

/-- A tick has brought the instruction on: either it has ended as it should, or less is left of it,
    with the same end. -/
def Progress (bound : Nat) (last : Architecture) (cpu : Cpu) : Prop :=
  (cpu.Settled ∧ cpu.architecture = last) ∨
    ∃ less rest, less < bound ∧ cpu.running = true ∧ Remains cpu less rest ∧
      rest.result cpu.architecture = last

/-! ## What a tick makes of its micro-step -/

section
variable {bound : Nat} {last : Architecture} {messages : List Message}

/-- A micro-step that faults ends the instruction. -/
theorem progress_of_error {fault : Fault} (running : cpu.running = true)
    (ran : (Micro.step cpu.state).run cpu.clearMarks = .error fault next)
    (same : next.architecture.fail fault = last) : Progress bound last cpu.tick.1 := by
  rw [tick_of_error running ran]
  exact .inl ⟨.inr rfl, same⟩

/-- A micro-step that leads to the next fetch ends the instruction. -/
theorem progress_of_fetch (running : cpu.running = true)
    (ran : (Micro.step cpu.state).run cpu.clearMarks = .ok (.fetch, messages) next)
    (awake : next.running = cpu.running) (same : next.architecture = last) :
    Progress bound last cpu.tick.1 := by
  rw [tick_of_ok running ran]
  exact .inl ⟨.inl rfl, (architecture_state (awake.trans running) .fetch).trans same⟩

/-- A micro-step that leads to another one leaves the rest of the instruction. -/
theorem progress_of_ok {state : MicroState} {less : Nat} {rest : Exec Unit}
    (running : cpu.running = true)
    (ran : (Micro.step cpu.state).run cpu.clearMarks = .ok (state, messages) next)
    (awake : next.running = cpu.running) (lt : less < bound)
    (remains : Remains { next with state := state } less rest)
    (same : rest.result next.architecture = last) : Progress bound last cpu.tick.1 := by
  rw [tick_of_ok running ran]
  refine .inr ⟨less, rest, lt, awake.trans running, remains, ?_⟩
  rw [architecture_state (awake.trans running), same]

end

section
variable {source : Isa.Source} {destination : Isa.Destination} {config : Config}

/-- A movement behind its source operand. -/
theorem remains_afterSourceOperand (decoded : cpu.Decodes source destination)
    (same : next.datapath.cells.instruction = cpu.datapath.cells.instruction) :
    ∃ less rest, less < 7 ∧
      Remains
        { next with state := Micro.afterSourceOperand cpu.datapath.cells.instruction } less rest ∧
      rest = Exec.moveFromN source destination := by
  unfold Micro.afterSourceOperand
  rw [decoded.destination, Option.map_some, Option.getD_some]
  cases takes : destination.takesWord with
  | true =>
    exact ⟨6, _, by decide, .destinationOperand rfl (decoded.of_eq same _),
      (Exec.moveFromN_of_word takes).symm⟩
  | false =>
    exact ⟨4, _, by decide, .movementFetch rfl (decoded.of_eq same _),
      (Exec.moveFromN_of_not takes).symm⟩

theorem progress_movement (running : cpu.running = true) (state : cpu.state = .movement)
    (decoded : cpu.Decodes source destination) :
    Progress 9 ((Exec.movement source destination).result cpu.architecture) cpu.tick.1 := by
  obtain ⟨next, ran, leads⟩ := Micro.run_movementStep cpu.clearMarks
  have goes : (Isa.source cpu.clearMarks.datapath.cells.instruction).takesWord = source.takesWord :=
    congrArg Isa.Source.takesWord decoded.source
  rw [goes] at ran
  cases takes : source.takesWord with
  | true =>
    rw [takes, if_pos rfl] at ran
    refine progress_of_ok running (by rw [state]; exact ran) leads.running (by decide)
      (.sourceOperand rfl (decoded.of_eq leads.instruction _)) ?_
    rw [leads.seen, Exec.movement_of_word takes]
    rfl
  | false =>
    rw [takes, if_neg (by decide)] at ran
    obtain ⟨less, rest, lt, remains, same⟩ :=
      remains_afterSourceOperand decoded leads.instruction
    refine progress_of_ok running (by rw [state]; exact ran) leads.running (by omega) remains ?_
    rw [leads.seen, Exec.movement_of_not takes, same]
    rfl

theorem progress_sourceOperandLoad (running : cpu.running = true)
    (state : cpu.state = .sourceOperandLoad) (decoded : cpu.Decodes source destination)
    (fits : cpu.datapath.Fits config) :
    Progress 7 ((do Exec.operandM; Exec.moveFromN source destination : Exec Unit).result
      cpu.architecture) cpu.tick.1 := by
  rw [Exec.result_bind]
  cases read : cpu.datapath.memory.read cpu.datapath.cells.pc with
  | ok word =>
    obtain ⟨next, ran, leads⟩ :=
      Micro.run_sourceOperandStep_ok cpu.clearMarks read (fits.memory.read read)
    obtain ⟨less, rest, lt, remains, same⟩ :=
      remains_afterSourceOperand decoded leads.instruction
    refine progress_of_ok running (by rw [state]; exact ran) leads.running lt remains ?_
    rw [leads.seen, same, Exec.run_operandM_ok (x := cpu.architecture) read]
    rfl
  | error fault =>
    obtain ⟨next, ran, seen⟩ :=
      Micro.run_sourceOperandStep_error cpu.clearMarks read
    refine progress_of_error running (by rw [state]; exact ran) ?_
    rw [seen, Exec.run_operandM_error (x := cpu.architecture) read]
    rfl

theorem progress_destinationOperandLoad (running : cpu.running = true)
    (state : cpu.state = .destinationOperandLoad) (decoded : cpu.Decodes source destination)
    (fits : cpu.datapath.Fits config) :
    Progress 5 ((do Exec.operandN; Exec.move source destination : Exec Unit).result
      cpu.architecture) cpu.tick.1 := by
  rw [Exec.result_bind]
  cases read : cpu.datapath.memory.read cpu.datapath.cells.pc with
  | ok word =>
    obtain ⟨next, ran, leads⟩ :=
      Micro.run_destinationOperandStep_ok cpu.clearMarks read (fits.memory.read read)
    refine progress_of_ok running (by rw [state]; exact ran) leads.running (by decide)
      (.movementFetch rfl (decoded.of_eq leads.instruction _)) ?_
    rw [leads.seen, Exec.run_operandN_ok (x := cpu.architecture) read]
    rfl
  | error fault =>
    obtain ⟨next, ran, seen⟩ :=
      Micro.run_destinationOperandStep_error cpu.clearMarks read
    refine progress_of_error running (by rw [state]; exact ran) ?_
    rw [seen, Exec.run_operandN_error (x := cpu.architecture) read]
    rfl

/-- A memory source is buffered; any other source waits for the move. -/
theorem progress_movementFetch (running : cpu.running = true)
    (state : cpu.state = .movementFetch) (decoded : cpu.Decodes source destination)
    (fits : cpu.datapath.Fits config) :
    Progress 4 ((Exec.move source destination).result cpu.architecture) cpu.tick.1 := by
  cases memory : buffered source with
  | true =>
    unfold Exec.move
    rw [Exec.result_bind]
    have buffers := Micro.run_movementFetchStep_buffered cpu.clearMarks fits.memory
      ((congrArg buffered decoded.source).trans memory)
    have read : Isa.source cpu.clearMarks.datapath.cells.instruction = source := decoded.source
    rw [read] at buffers
    rcases buffers with ⟨word, next, messages, y, value, ran, buffer, leads⟩ |
      ⟨fault, next, value, ran⟩
    · refine progress_of_ok running (by rw [state]; exact ran) leads.running (by decide)
        (.moveBuffered rfl (decoded.of_eq leads.instruction _) memory) ?_
      rw [leads.seen]
      show (Exec.put next.datapath.cells.buffer destination).result y = _
      rw [buffer, ← architecture_clearMarks cpu, value]
    · refine progress_of_error running (by rw [state]; exact ran) ?_
      rw [← architecture_clearMarks cpu, value]
  | false =>
    obtain ⟨next, ran, leads⟩ := Micro.run_movementFetchStep_direct cpu.clearMarks
      ((congrArg buffered decoded.source).trans memory)
    refine progress_of_ok running (by rw [state]; exact ran) leads.running (by decide)
      (.moveDirect rfl (decoded.of_eq leads.instruction _) memory) ?_
    rw [leads.seen]
    rfl

/-- A word that the move has at hand reaches its destination. -/
theorem progress_move {word : Nat} {middle : Cpu} (running : cpu.running = true)
    (state : cpu.state = .movementMove) (decoded : cpu.Decodes source destination)
    (reads : Micro.Reads cpu.clearMarks source word middle) :
    Progress 3 ((Exec.put word destination).result middle.architecture) cpu.tick.1 := by
  have step : Micro.step cpu.state = Micro.movementMoveStep := by rw [state]; rfl
  rw [← decoded.source] at reads
  by_cases jump : destination = .pc
  · obtain ⟨next, messages, ran, awake, same⟩ :=
      Micro.run_movementMoveStep_pc _ (jump ▸ decoded.destination) reads
    rw [← step] at ran
    refine progress_of_fetch running ran awake ?_
    rw [same, jump]
    rfl
  · cases memory : flushed destination with
    | false =>
      obtain ⟨next, messages, ran, awake, delivered⟩ :=
        Micro.run_movementMoveStep_cell cpu.clearMarks decoded.destination reads memory
          jump
      rw [← step] at ran
      refine progress_of_ok running ran awake (by decide) (.finish rfl) ?_
      exact (Exec.put_result delivered jump).symm
    | true =>
      by_cases push : destination = .push
      · obtain ⟨next, messages, ran, buffer, leads⟩ :=
          Micro.run_movementMoveStep_push _ (push ▸ decoded.destination) reads
        rw [← step] at ran
        refine progress_of_ok running ran leads.running (by decide)
          (.flush rfl (decoded.of_eq leads.instruction _).destination) ?_
        rw [leads.seen, push]
        show (Exec.put next.datapath.cells.buffer .stack).result _ = _
        rw [buffer]
        rfl
      · obtain ⟨next, messages, ran, buffer, leads⟩ :=
          Micro.run_movementMoveStep_memory cpu.clearMarks decoded.destination reads memory
            push
        rw [← step] at ran
        refine progress_of_ok running ran leads.running (by decide)
          (.flush rfl (decoded.of_eq leads.instruction _).destination) ?_
        rw [leads.seen]
        show (Exec.put next.datapath.cells.buffer _).result _ = _
        rw [buffer]
        cases destination
        case memAt | mem | stackAt | stack => rfl
        case push => exact absurd rfl push
        all_goals cases memory

theorem progress_flush (running : cpu.running = true) (state : cpu.state = .movementFlush)
    (decoded : Isa.destination? cpu.datapath.cells.instruction = some destination)
    (fits : cpu.datapath.Fits config) :
    Progress 2
      ((Exec.put cpu.datapath.cells.buffer (Micro.flushPlace destination)).result
        cpu.architecture) cpu.tick.1 := by
  have jump : Micro.flushPlace destination ≠ .pc := by cases destination <;> decide
  rcases Micro.run_movementFlushStep cpu.clearMarks decoded (fits.cell .buffer) with
    ⟨next, messages, ran, awake, delivered⟩ | ⟨fault, next, ran, delivered⟩
  · refine progress_of_ok running (by rw [state]; exact ran) awake (by decide) (.finish rfl) ?_
    exact (Exec.put_result delivered jump).symm
  · refine progress_of_error running (by rw [state]; exact ran) ?_
    unfold Exec.put
    rw [Exec.result_bind]
    have delivered : (Exec.deliver cpu.datapath.cells.buffer (Micro.flushPlace destination)).run
      cpu.architecture = .error fault next.architecture := delivered
    rw [delivered]

/-! ## One tick -/

/-- A tick does the first piece of what remains. -/
theorem Remains.tick {bound : Nat} {rest : Exec Unit} (remains : Remains cpu bound rest)
    (running : cpu.running = true) (fits : cpu.datapath.Fits config) :
    Progress bound (rest.result cpu.architecture) cpu.tick.1 := by
  cases remains with
  | skipTwo state =>
    obtain ⟨next, ran, leads⟩ := Micro.run_advance .skipOne [] cpu.clearMarks
    refine progress_of_ok running (by rw [state]; exact ran) leads.running (by decide)
      (.skipOne rfl) ?_
    rw [leads.seen]
    exact Exec.advance_advance 1 2 cpu.architecture
  | skipOne state =>
    obtain ⟨next, ran, leads⟩ := Micro.run_advance .finish [] cpu.clearMarks
    refine progress_of_ok running (by rw [state]; exact ran) leads.running (by decide)
      (.finish rfl) ?_
    rw [leads.seen]
    exact Exec.advance_advance 1 1 cpu.architecture
  | finish state =>
    obtain ⟨next, ran, leads⟩ := Micro.run_advance .fetch [] cpu.clearMarks
    exact progress_of_fetch running (by rw [state]; exact ran) leads.running leads.seen
  | condition state =>
    obtain ⟨next, messages, ran, awake, seen⟩ := Micro.run_conditionStep cpu.clearMarks
    refine progress_of_ok running (by rw [state]; exact ran) awake (by decide) (.finish rfl) ?_
    rw [seen]
    rfl
  | action state decoded =>
    rcases Micro.run_actionStep cpu.clearMarks decoded with
      ⟨next, messages, ran, awake, same⟩ | ⟨stopped, next, messages, ran, asleep, same⟩
    · exact progress_of_ok running (by rw [state]; exact ran) awake (by decide) (.finish rfl) same
    · rw [tick_of_ok running (by rw [state]; exact ran)]
      exact .inl ⟨.inr asleep, same⟩
  | noAction state decoded =>
    obtain ⟨next, ran, seen⟩ := Micro.run_actionStep_none cpu.clearMarks decoded
    refine progress_of_error running (by rw [state]; exact ran) ?_
    rw [seen]
    rfl
  | movement state decoded => exact progress_movement running state decoded
  | sourceOperand state decoded =>
    obtain ⟨next, ran, leads⟩ :=
      Micro.run_advance .sourceOperandLoad [.loadingSourceOperand] cpu.clearMarks
    refine progress_of_ok running (by rw [state]; exact ran) leads.running (by decide)
      (.sourceOperandLoad rfl (decoded.of_eq leads.instruction _)) ?_
    rw [leads.seen]
    rfl
  | sourceOperandLoad state decoded =>
    exact progress_sourceOperandLoad running state decoded fits
  | destinationOperand state decoded =>
    obtain ⟨next, ran, leads⟩ :=
      Micro.run_advance .destinationOperandLoad [.loadingDestinationOperand] cpu.clearMarks
    refine progress_of_ok running (by rw [state]; exact ran) leads.running (by decide)
      (.destinationOperandLoad rfl (decoded.of_eq leads.instruction _)) ?_
    rw [leads.seen]
    rfl
  | destinationOperandLoad state decoded =>
    exact progress_destinationOperandLoad running state decoded fits
  | movementFetch state decoded => exact progress_movementFetch running state decoded fits
  | moveDirect state decoded direct =>
    obtain ⟨word, middle, reads, value⟩ :=
      Micro.reads_direct cpu.clearMarks direct fits.cell
    unfold Exec.move
    rw [Exec.result_bind, ← architecture_clearMarks cpu, value]
    exact progress_move running state decoded reads
  | moveBuffered state decoded memory =>
    obtain ⟨middle, reads, seen⟩ :=
      Micro.reads_buffered cpu.clearMarks memory fits.cell
    have moves := progress_move running state decoded reads
    rw [seen] at moves
    exact moves
  | flush state decoded => exact progress_flush running state decoded fits

theorem operandCount_le (word : Nat) : Isa.operandCount word ≤ 2 := by
  unfold Isa.operandCount
  split
  · split <;> split <;> decide
  · decide

/-- A skipped instruction is passed over in as many steps as it has words. -/
theorem progress_skip {word : Nat} (running : cpu.running = true) (state : cpu.state = .fetch)
    (read : cpu.datapath.memory.read cpu.datapath.cells.pc = .ok word) (skip : cpu.skip = true) :
    Progress 10 (Exec.step.result cpu.architecture) cpu.tick.1 := by
  obtain ⟨next, messages, ran, awake, seen⟩ :=
    Micro.run_fetchStep_skip cpu.clearMarks read skip
  rw [Exec.step_of_skip (x := cpu.architecture) read skip]
  have few := operandCount_le word
  match count : Isa.operandCount word with
  | 0 =>
    rw [count] at ran
    exact progress_of_ok running (by rw [state]; exact ran) awake (by decide) (.finish rfl)
      (by rw [seen]; rfl)
  | 1 =>
    rw [count] at ran
    exact progress_of_ok running (by rw [state]; exact ran) awake (by decide) (.skipOne rfl)
      (by rw [seen]; rfl)
  | 2 =>
    rw [count] at ran
    exact progress_of_ok running (by rw [state]; exact ran) awake (by decide) (.skipTwo rfl)
      (by rw [seen]; rfl)
  | _ + 3 => omega

section
variable {word : Nat} (running : cpu.running = true) (state : cpu.state = .fetch)
  (read : cpu.datapath.memory.read cpu.datapath.cells.pc = .ok word) (skip : cpu.skip = false)

include running state read skip

/-- A word that is no instruction is refused at once. -/
theorem progress_refused (none : Isa.kind? word = none ∨
      Isa.kind? word = some .movement ∧ Isa.destination? word = none)
    (undecoded : Isa.Opcode.ofWord? word = Option.none)
    (kind : ¬Isa.kind? word = some .action) :
    Progress 10 (Exec.step.result cpu.architecture) cpu.tick.1 := by
  obtain ⟨next, ran, seen⟩ := Micro.run_fetchStep_none cpu.clearMarks read skip none
  rw [Exec.step_of_none (x := cpu.architecture) read skip undecoded, if_neg kind]
  exact progress_of_error running (by rw [state]; exact ran) (by rw [seen]; rfl)

variable (lt : word < wordCount cpu.datapath.bits)

include lt

theorem progress_fetchMovement {destination : Isa.Destination}
    (kind : Isa.kind? word = some .movement) (decoded : Isa.destination? word = some destination) :
    Progress 10 (Exec.step.result cpu.architecture) cpu.tick.1 := by
  obtain ⟨next, messages, ran, awake, instruction, seen⟩ := Micro.run_fetchStep_kind
    cpu.clearMarks read lt skip kind (fun _ => by rw [decoded]; rfl)
  have opcode : Isa.Opcode.ofWord? word = some (.movement (Isa.source word) destination) := by
    rw [Isa.Opcode.ofWord?, kind, decoded]
    rfl
  rw [Exec.step_of_opcode (x := cpu.architecture) read skip opcode]
  refine progress_of_ok running (by rw [state]; exact ran) awake (by decide)
    (.movement rfl ⟨?_, ?_⟩) (by rw [seen]; rfl)
  · exact congrArg Isa.source instruction
  · exact (congrArg Isa.destination? instruction).trans decoded

theorem progress_fetchCondition (kind : Isa.kind? word = some .condition) :
    Progress 10 (Exec.step.result cpu.architecture) cpu.tick.1 := by
  obtain ⟨next, messages, ran, awake, instruction, seen⟩ := Micro.run_fetchStep_kind
    cpu.clearMarks read lt skip kind (fun h => nomatch h)
  have opcode : Isa.Opcode.ofWord? word = some (.condition (Isa.condition word)) := by
    rw [Isa.Opcode.ofWord?, kind]
  rw [Exec.step_of_opcode (x := cpu.architecture) read skip opcode]
  refine progress_of_ok running (by rw [state]; exact ran) awake (by decide) (.condition rfl) ?_
  rw [seen, ← instruction]
  rfl

theorem progress_fetchAction (kind : Isa.kind? word = some .action) :
    Progress 10 (Exec.step.result cpu.architecture) cpu.tick.1 := by
  obtain ⟨next, messages, ran, awake, instruction, seen⟩ := Micro.run_fetchStep_kind
    cpu.clearMarks read lt skip kind (fun h => nomatch h)
  cases decoded : Isa.action? word with
  | none =>
    -- The fetch lets the word pass; the action step refuses it one tick later.
    have opcode : Isa.Opcode.ofWord? word = none := by
      rw [Isa.Opcode.ofWord?, kind, decoded]
      rfl
    rw [Exec.step_of_none (x := cpu.architecture) read skip opcode, if_pos kind]
    refine progress_of_ok running (by rw [state]; exact ran) awake (by decide)
      (.noAction rfl ((congrArg Isa.action? instruction).trans decoded)) ?_
    show (next.architecture.fail
      (.noAction next.datapath.cells.instruction next.architecture.pc)) = _
    rw [seen, instruction]
    rfl
  | some x =>
    have opcode : Isa.Opcode.ofWord? word = some (.action x) := by
      rw [Isa.Opcode.ofWord?, kind, decoded]
      rfl
    rw [Exec.step_of_opcode (x := cpu.architecture) read skip opcode]
    refine progress_of_ok running (by rw [state]; exact ran) awake (by decide)
      (.action rfl ((congrArg Isa.action? instruction).trans decoded)) ?_
    rw [seen]
    rfl

/-- The first bits of a word that is not skipped tell how its instruction goes on. -/
theorem progress_execute : Progress 10 (Exec.step.result cpu.architecture) cpu.tick.1 := by
  cases kind : Isa.kind? word with
  | none =>
    exact progress_refused running state read skip (.inl kind) (by rw [Isa.Opcode.ofWord?, kind])
      (by rw [kind]; decide)
  | some found =>
    cases found with
    | movement =>
      cases decoded : Isa.destination? word with
      | none =>
        exact progress_refused running state read skip (.inr ⟨kind, decoded⟩)
          (by rw [Isa.Opcode.ofWord?, kind, decoded]; rfl) (by rw [kind]; decide)
      | some destination => exact progress_fetchMovement running state read skip lt kind decoded
    | condition => exact progress_fetchCondition running state read skip lt kind
    | action => exact progress_fetchAction running state read skip lt kind

end

/-- A fetch begins the instruction that the program counter shows. -/
theorem progress_fetch (running : cpu.running = true) (state : cpu.state = .fetch)
    (fits : cpu.datapath.Fits config) :
    Progress 10 (Exec.step.result cpu.architecture) cpu.tick.1 := by
  cases read : cpu.datapath.memory.read cpu.datapath.cells.pc with
  | error fault =>
    obtain ⟨next, ran, seen⟩ := Micro.run_fetchStep_error cpu.clearMarks read
    rw [Exec.step_of_error (x := cpu.architecture) read]
    exact progress_of_error running (by rw [state]; exact ran) (by rw [seen]; rfl)
  | ok word =>
    cases skip : cpu.skip with
    | true => exact progress_skip running state read skip
    | false => exact progress_execute running state read skip (fits.memory.read read)

/-! ## Whole instructions -/

/-- The number of ticks after which a processor has come to its next fetch or stopped. -/
structure Completes (cpu : Cpu) (n : Nat) : Prop where
  pos : 0 < n
  settled : (cpu.ticks n).Settled
  first : ∀ k, 0 < k → k < n → ¬(cpu.ticks k).Settled

/-- What remains is in the midst of an instruction. -/
theorem Remains.not_settled {bound : Nat} {rest : Exec Unit} (remains : Remains cpu bound rest)
    (running : cpu.running = true) : ¬cpu.Settled := by
  unfold Settled
  rw [running]
  cases remains with
  | _ state => rw [state]; decide

/-- The first tick of an instruction, and what the ticks for less of it do, make the whole. -/
theorem Progress.completes {bound : Nat} {last : Architecture} (pos : 0 < bound)
    (progress : Progress bound last cpu.tick.1)
    (later : ∀ less < bound, ∀ rest, Remains cpu.tick.1 less rest → cpu.tick.1.running = true →
      ∃ n ≤ less, cpu.tick.1.Completes n ∧
        (cpu.tick.1.ticks n).architecture = rest.result cpu.tick.1.architecture) :
    ∃ n ≤ bound, cpu.Completes n ∧ (cpu.ticks n).architecture = last := by
  rcases progress with ⟨settled, same⟩ | ⟨less, rest, lt, running, remains, same⟩
  · exact ⟨1, pos, ⟨by decide, settled, fun k _ _ => by omega⟩, same⟩
  · obtain ⟨n, le, completes, ended⟩ := later less lt rest remains running
    refine ⟨n + 1, by omega, ⟨by omega, completes.settled, ?_⟩, ended.trans same⟩
    intro k positive below
    match k with
    | 1 => exact remains.not_settled running
    | k + 2 => exact completes.first (k + 1) (by omega) (by omega)

/-- What remains of an instruction is done within its bound. -/
theorem Remains.run (bound : Nat) : ∀ {cpu : Cpu} {rest : Exec Unit}, Remains cpu bound rest →
    cpu.running = true → cpu.datapath.Fits config →
    ∃ n ≤ bound, cpu.Completes n ∧ (cpu.ticks n).architecture = rest.result cpu.architecture := by
  -- A tick may take more than one off the bound, so every smaller bound is assumed.
  induction bound using Nat.strongRecOn with
  | _ bound ih =>
    intro cpu rest remains running fits
    have pos : 0 < bound := by cases remains <;> decide
    exact (remains.tick running fits).completes pos fun less lt rest later awake =>
      ih less lt later awake (fits_tick fits)

/-- An instruction is done within ten ticks, and is one step of what a program sees. -/
theorem completes_step (running : cpu.running = true) (state : cpu.state = .fetch)
    (fits : cpu.datapath.Fits config) :
    ∃ n ≤ 10, cpu.Completes n ∧ (cpu.ticks n).architecture = Exec.step.result cpu.architecture :=
  (progress_fetch running state fits).completes (by decide) fun less _ _ later awake =>
    later.run less awake (fits_tick fits)

end

/-- The micro-steps of a reachable processor that is about to fetch come to the next fetch, or stop,
    within ten ticks. What a program sees has then made one step, and a flag that has changed was
    changed by an instruction that uses a combinator. -/
theorem ticks_refine_step {config : Config} (reachable : cpu.Reachable config)
    (running : cpu.running = true) (state : cpu.state = .fetch) :
    ∃ n ≤ 10, cpu.Completes n ∧
      (cpu.ticks n).architecture = Exec.step.result cpu.architecture ∧
      ((cpu.ticks n).datapath.carry ≠ cpu.datapath.carry ∨
          (cpu.ticks n).datapath.zero ≠ cpu.datapath.zero →
        cpu.skip = false ∧ ∃ word opcode,
          cpu.datapath.memory.read cpu.datapath.cells.pc = .ok word ∧
          Isa.Opcode.ofWord? word = some opcode ∧ Exec.computes opcode = true) := by
  obtain ⟨n, le, completes, same⟩ := completes_step running state reachable.fits
  refine ⟨n, le, completes, same, fun changes => ?_⟩
  have carry : (cpu.ticks n).datapath.carry = (Exec.step.result cpu.architecture).carry :=
    congrArg Architecture.carry same
  have zero : (cpu.ticks n).datapath.zero = (Exec.step.result cpu.architecture).zero :=
    congrArg Architecture.zero same
  rw [carry, zero] at changes
  exact Exec.step_flags cpu.architecture changes

/-- A literal moved to a register, at its fetch. -/
theorem ticks_refine_step_load : ∃ cpu, (Cpu.initial .standard).load [502, 7, 66] = .ok cpu ∧
    ∃ n ≤ 10, cpu.reset.tick.1.Completes n ∧
      (cpu.reset.tick.1.ticks n).architecture =
        Exec.step.result cpu.reset.tick.1.architecture := by
  have loads : ((Cpu.initial .standard).load [502, 7, 66]).isOk = true := by decide +kernel
  cases loaded : (Cpu.initial .standard).load [502, 7, 66] with
  | error fault =>
    rw [loaded] at loads
    cases loads
  | ok cpu =>
    obtain ⟨n, le, completes, same, -⟩ :=
      ticks_refine_step (.tick (.reset (.load .initial loaded))) rfl rfl
    exact ⟨cpu, rfl, n, le, completes, same⟩

end Cpu

end NineBit.Machine

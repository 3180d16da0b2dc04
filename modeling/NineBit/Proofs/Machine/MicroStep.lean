import NineBit.Proofs.Machine.Architecture
import NineBit.Proofs.Machine.Reachable

/-!
# What each micro-step does

For each micro-step, what it makes of what a program sees (`Cpu.architecture`). Whatever the step,
the marks do not matter, a fault keeps what was done before it, and the instruction buffer changes
in no step but the fetch.
-/

namespace NineBit.Machine

theorem wrap_natCast (bits value : Nat) : wrap bits value = value % wordCount bits := by
  rw [wrap, ← Int.natCast_emod, Int.toNat_natCast]

/-- The source is a memory cell, whose word is buffered before it is moved. -/
def buffered : Isa.Source → Bool
  | .memAt | .mem | .stackAt | .stack => true
  | _ => false

/-- The destination is a memory cell, to which the buffer is flushed after the move. -/
def flushed : Isa.Destination → Bool
  | .memAt | .mem | .stackAt | .stack | .push => true
  | _ => false

namespace Cpu

/-- What a program sees of a processor. -/
def architecture (cpu : Cpu) : Architecture where
  bits := cpu.datapath.bits
  a := cpu.datapath.cells.a
  b := cpu.datapath.cells.b
  c := cpu.datapath.cells.c
  d := cpu.datapath.cells.d
  m := cpu.datapath.cells.m
  n := cpu.datapath.cells.n
  pc := cpu.datapath.cells.pc
  sp := cpu.datapath.cells.stack
  memory := cpu.datapath.memory
  outputs := cpu.outputs
  carry := cpu.datapath.carry
  zero := cpu.datapath.zero
  skip := cpu.skip
  stopped := if cpu.running then none else some cpu.state
  fault := cpu.failure.map Failure.fault

theorem architecture_clearMarks (cpu : Cpu) : cpu.clearMarks.architecture = cpu.architecture := rfl

/-- A running processor shows no micro-state. -/
theorem architecture_state {cpu : Cpu} (running : cpu.running = true) (state : MicroState) :
    { cpu with state := state }.architecture = cpu.architecture := by
  simp only [architecture, running, if_true]

/-- One processor has become another in the midst of an instruction, with a new view. -/
structure Leads (cpu next : Cpu) (x : Architecture) : Prop where
  seen : next.architecture = x
  running : next.running = cpu.running
  instruction : next.datapath.cells.instruction = cpu.datapath.cells.instruction

namespace Micro

variable (cpu : Cpu) {word : Nat} {fault : Fault}

/-! ## Parts of micro-steps -/

theorem run_readCell (cell : Cell) (cpu : Cpu) :
    (readCell cell).run cpu =
      .ok (cpu.datapath.cells.get cell)
        { cpu with datapath := (cpu.datapath.readCell cell).2 } := rfl

theorem run_writeCell (cell : Cell) (value : Nat) (cpu : Cpu) :
    (writeCell cell value).run cpu =
      .ok () { cpu with datapath := cpu.datapath.writeCell cell value } := rfl

theorem run_readMemory_ok {address : Nat} (read : cpu.datapath.memory.read address = .ok word) :
    (readMemory address).run cpu =
      .ok word
        { cpu with
          datapath :=
            { cpu.datapath.touch .memory .read with lastAddress := some address } } := by
  unfold EStateM.run readMemory Datapath.readMemory
  rw [read]
  rfl

theorem run_readMemory_error {address : Nat}
    (read : cpu.datapath.memory.read address = .error fault) :
    (readMemory address).run cpu = .error fault cpu := by
  unfold EStateM.run readMemory Datapath.readMemory
  rw [read]

theorem run_writeMemory_ok {address value : Nat} {memory : Memory}
    (written : cpu.datapath.memory.write address (wrap cpu.datapath.bits value) = .ok memory) :
    (writeMemory address value).run cpu =
      .ok ()
        { cpu with
          datapath :=
            { cpu.datapath.touch .memory .write with
              memory := memory
              lastAddress := some address } } := by
  unfold EStateM.run writeMemory Datapath.writeMemory
  rw [written]
  rfl

theorem run_writeMemory_error {address value : Nat}
    (written : cpu.datapath.memory.write address (wrap cpu.datapath.bits value) = .error fault) :
    (writeMemory address value).run cpu = .error fault cpu := by
  unfold EStateM.run writeMemory Datapath.writeMemory
  rw [written]

/-! ## Steps that only move on -/

theorem run_advance (state : MicroState) (messages : List Message) (cpu : Cpu) :
    ∃ next, (advance state messages).run cpu = .ok (state, messages) next ∧
      Leads cpu next ((Exec.advance 1).result cpu.architecture) := by
  have moved := wrap_natCast cpu.datapath.bits (cpu.datapath.cells.pc + 1)
  refine ⟨_, rfl, ⟨?_, rfl, rfl⟩⟩
  rw [Exec.advance_result]
  simp only [architecture, ← moved]
  rfl

theorem run_movementStep (cpu : Cpu) :
    ∃ next, movementStep.run cpu =
        .ok (if (Isa.source cpu.datapath.cells.instruction).takesWord then .sourceOperand
          else afterSourceOperand cpu.datapath.cells.instruction, []) next ∧
      Leads cpu next cpu.architecture :=
  ⟨_, rfl, rfl, rfl, rfl⟩

/-! ## Operands -/

theorem run_readOperand_error
    (read : cpu.datapath.memory.read cpu.datapath.cells.pc = .error fault) :
    ∃ next, readOperand.run cpu = .error fault next ∧ next.architecture = cpu.architecture := by
  have ran := run_readMemory_error
    { cpu with datapath := (cpu.datapath.readCell .pc).2 } read
  exact ⟨_, ran, rfl⟩

theorem run_sourceOperandStep_ok
    (read : cpu.datapath.memory.read cpu.datapath.cells.pc = .ok word)
    (lt : word < wordCount cpu.datapath.bits) :
    ∃ next, sourceOperandStep.run cpu =
        .ok (afterSourceOperand cpu.datapath.cells.instruction, [.loadedSourceOperand word])
          next ∧
      Leads cpu next { cpu.architecture with m := word } := by
  have ran := run_readMemory_ok
    { cpu with datapath := (cpu.datapath.readCell .pc).2 } read
  unfold sourceOperandStep readOperand
  simp only [EStateM.run_bind, run_readCell, Cells.get, ran]
  refine ⟨_, rfl, ⟨?_, rfl, rfl⟩⟩
  show { cpu.architecture with m := wrap cpu.datapath.bits word } = _
  rw [wrap_of_lt lt]

theorem run_sourceOperandStep_error
    (read : cpu.datapath.memory.read cpu.datapath.cells.pc = .error fault) :
    ∃ next, sourceOperandStep.run cpu = .error fault next ∧
      next.architecture = cpu.architecture := by
  obtain ⟨next, ran, same⟩ := run_readOperand_error _ read
  unfold sourceOperandStep
  exact ⟨next, by rw [EStateM.run_bind, ran], same⟩

theorem run_destinationOperandStep_ok
    (read : cpu.datapath.memory.read cpu.datapath.cells.pc = .ok word)
    (lt : word < wordCount cpu.datapath.bits) :
    ∃ next, destinationOperandStep.run cpu =
        .ok (.movementFetch, [.loadedDestinationOperand word]) next ∧
      Leads cpu next { cpu.architecture with n := word } := by
  have ran := run_readMemory_ok
    { cpu with datapath := (cpu.datapath.readCell .pc).2 } read
  unfold destinationOperandStep readOperand
  simp only [EStateM.run_bind, run_readCell, Cells.get, ran]
  refine ⟨_, rfl, ⟨?_, rfl, rfl⟩⟩
  show { cpu.architecture with n := wrap cpu.datapath.bits word } = _
  rw [wrap_of_lt lt]

theorem run_destinationOperandStep_error
    (read : cpu.datapath.memory.read cpu.datapath.cells.pc = .error fault) :
    ∃ next, destinationOperandStep.run cpu = .error fault next ∧
      next.architecture = cpu.architecture := by
  obtain ⟨next, ran, same⟩ := run_readOperand_error _ read
  unfold destinationOperandStep
  exact ⟨next, by rw [EStateM.run_bind, ran], same⟩

/-! ## Sources -/

theorem run_bufferFrom_ok {address : Nat} (read : cpu.datapath.memory.read address = .ok word)
    (lt : word < wordCount cpu.datapath.bits) :
    ∃ next, (bufferFrom address).run cpu = .ok (.movementMove, [.buffered word address]) next ∧
      next.datapath.cells.buffer = word ∧ Leads cpu next cpu.architecture := by
  unfold bufferFrom
  simp only [EStateM.run_bind, run_readMemory_ok _ read]
  exact ⟨_, rfl, wrap_of_lt lt, rfl, rfl, rfl⟩

theorem run_bufferFrom_error {address : Nat}
    (read : cpu.datapath.memory.read address = .error fault) :
    (bufferFrom address).run cpu = .error fault cpu := by
  unfold bufferFrom
  rw [EStateM.run_bind, run_readMemory_error _ read]

/-- The address of a stack cell to be read, with the flags that its computation sets. -/
theorem run_evaluate_stackRead (cpu : Cpu) :
    ∃ address next, (evaluate .stackRead).run cpu = .ok address next ∧
      (Exec.stackAddress Architecture.m).run cpu.architecture = .ok address next.architecture ∧
      next.datapath.memory = cpu.datapath.memory ∧ next.datapath.bits = cpu.datapath.bits ∧
      Leads cpu next next.architecture :=
  ⟨_, _, rfl, rfl, rfl, rfl, rfl, rfl, rfl⟩

/-- The step that buffers a memory source finds its value, or faults where its value does. -/
theorem run_movementFetchStep_buffered (fits : cpu.datapath.memory.Fits cpu.datapath.bits)
    (memory : buffered (Isa.source cpu.datapath.cells.instruction) = true) :
    (∃ word next messages y,
      (Exec.value (Isa.source cpu.datapath.cells.instruction)).run cpu.architecture = .ok word y ∧
      movementFetchStep.run cpu = .ok (.movementMove, messages) next ∧
      next.datapath.cells.buffer = word ∧ Leads cpu next y) ∨
    ∃ fault next,
      (Exec.value (Isa.source cpu.datapath.cells.instruction)).run cpu.architecture =
        .error fault next.architecture ∧
      movementFetchStep.run cpu = .error fault next := by
  unfold movementFetchStep instruction
  simp only [EStateM.run_bind, run_readCell, Cells.get]
  cases source : Isa.source cpu.datapath.cells.instruction
  case memAt | mem =>
    cases read : cpu.datapath.memory.read cpu.datapath.cells.m with
    | ok word =>
      obtain ⟨next, ran, buffer, seen, running, kept⟩ := run_bufferFrom_ok
        { cpu with datapath := ((cpu.datapath.readCell .instruction).2.readCell .m).2 }
        read (fits.read read)
      refine .inl ⟨word, next, _, cpu.architecture, ?_, ran, buffer, seen, running, kept⟩
      exact Exec.run_load_ok read
    | error fault =>
      refine .inr ⟨fault, _, ?_, run_bufferFrom_error
        { cpu with datapath := ((cpu.datapath.readCell .instruction).2.readCell .m).2 }
        read⟩
      exact Exec.run_load_error read
  case stackAt | stack =>
    obtain ⟨address, middle, ran, seen, same, bits, leads⟩ := run_evaluate_stackRead
      { cpu with datapath := (cpu.datapath.readCell .instruction).2 }
    have words : middle.datapath.memory.Fits middle.datapath.bits := by
      rw [same, bits]
      exact fits
    cases read : middle.datapath.memory.read address with
    | ok word =>
      obtain ⟨next, filled, buffer, led⟩ := run_bufferFrom_ok _ read (words.read read)
      refine .inl ⟨word, next, [.buffered word address], middle.architecture, ?_, ?_, buffer,
        led.seen, led.running.trans leads.running, led.instruction.trans leads.instruction⟩
      · unfold Exec.value
        exact (Exec.run_bind_ok seen _).trans (Exec.run_load_ok read)
      · rw [EStateM.run_bind, ran]
        exact filled
    | error fault =>
      refine .inr ⟨fault, middle, ?_, ?_⟩
      · unfold Exec.value
        exact (Exec.run_bind_ok seen _).trans (Exec.run_load_error read)
      · rw [EStateM.run_bind, ran]
        exact run_bufferFrom_error _ read
  all_goals
    rw [source] at memory
    cases memory

theorem run_movementFetchStep_direct
    (direct : buffered (Isa.source cpu.datapath.cells.instruction) = false) :
    ∃ next, movementFetchStep.run cpu = .ok (.movementMove, []) next ∧
      Leads cpu next cpu.architecture := by
  unfold movementFetchStep instruction
  simp only [EStateM.run_bind, run_readCell, Cells.get]
  cases source : Isa.source cpu.datapath.cells.instruction
  case memAt | mem | stackAt | stack =>
    rw [source] at direct
    cases direct
  all_goals exact ⟨_, rfl, rfl, rfl, rfl⟩

theorem evaluate_lt (p : Datapath) (k : Combinator) : (p.evaluate k).1 < wordCount p.bits :=
  wrap_lt p.bits (k.combine (p.cells.get k.left) (p.cells.get k.right))

/-- What a movement moves: the word of its source, once a memory source is buffered. -/
structure Reads (cpu : Cpu) (source : Isa.Source) (word : Nat) (next : Cpu) : Prop where
  ran : (readSource source).run { cpu with datapath := (cpu.datapath.readCell .instruction).2 } =
    .ok word next
  fits : word < wordCount cpu.datapath.bits
  cells : next.datapath.cells = cpu.datapath.cells
  bits : next.datapath.bits = cpu.datapath.bits
  running : next.running = cpu.running

/-- A source that a combinator computes. -/
theorem reads_evaluate {source : Isa.Source} (k : Combinator) {value : Architecture → Int}
    (read : readSource source = evaluate k) (values : Exec.value source = Exec.compute value)
    (same : value cpu.architecture =
      k.combine (cpu.datapath.cells.get k.left) (cpu.datapath.cells.get k.right)) :
    ∃ word next, Reads cpu source word next ∧
      (Exec.value source).run cpu.architecture = .ok word next.architecture := by
  have ran : (readSource source).run
      { cpu with datapath := (cpu.datapath.readCell .instruction).2 } =
        .ok (cpu.datapath.peek k)
          { cpu with datapath := ((cpu.datapath.readCell .instruction).2.evaluate k).2 } := by
    rw [read]
    rfl
  refine ⟨_, _, ⟨ran, evaluate_lt cpu.datapath k, rfl, rfl, rfl⟩, ?_⟩
  rw [values]
  show EStateM.Result.ok (wrap cpu.datapath.bits (value cpu.architecture)) _ = _
  rw [same]
  rfl

/-- A source that is no memory cell gives its value. -/
theorem reads_direct {source : Isa.Source} (direct : buffered source = false)
    (fits : ∀ cell, cpu.datapath.cells.get cell < wordCount cpu.datapath.bits) :
    ∃ word next, Reads cpu source word next ∧
      (Exec.value source).run cpu.architecture = .ok word next.architecture := by
  cases source
  case memAt | mem | stackAt | stack => cases direct
  case zero => exact ⟨_, _, ⟨rfl, wordCount_pos _, rfl, rfl, rfl⟩, rfl⟩
  case a => exact ⟨_, _, ⟨rfl, fits .a, rfl, rfl, rfl⟩, rfl⟩
  case b => exact ⟨_, _, ⟨rfl, fits .b, rfl, rfl, rfl⟩, rfl⟩
  case c => exact ⟨_, _, ⟨rfl, fits .c, rfl, rfl, rfl⟩, rfl⟩
  case d => exact ⟨_, _, ⟨rfl, fits .d, rfl, rfl, rfl⟩, rfl⟩
  case literal => exact ⟨_, _, ⟨rfl, fits .m, rfl, rfl, rfl⟩, rfl⟩
  case sum => exact reads_evaluate cpu .adder rfl rfl rfl
  case sub => exact reads_evaluate cpu .subtractor rfl rfl rfl
  case and => exact reads_evaluate cpu .and rfl rfl rfl
  case or => exact reads_evaluate cpu .or rfl rfl rfl
  case xor => exact reads_evaluate cpu .xor rfl rfl rfl
  case stackptrAt => exact reads_evaluate cpu .stackRead rfl rfl rfl

/-- A memory source gives the buffered word. -/
theorem reads_buffered {source : Isa.Source} (memory : buffered source = true)
    (fits : ∀ cell, cpu.datapath.cells.get cell < wordCount cpu.datapath.bits) :
    ∃ next, Reads cpu source cpu.datapath.cells.buffer next ∧
      next.architecture = cpu.architecture := by
  cases source
  case memAt | mem | stackAt | stack =>
    exact ⟨_, ⟨rfl, fits .buffer, rfl, rfl, rfl⟩, rfl⟩
  all_goals cases memory

/-! ## Destinations -/

section
variable {destination : Isa.Destination} {middle : Cpu}

theorem Reads.wrap_eq {source : Isa.Source} (reads : Reads cpu source word middle) :
    wrap middle.datapath.bits word = word := by
  rw [reads.bits]
  exact wrap_of_lt reads.fits

/-- A movement to the program counter is a jump. -/
theorem run_movementMoveStep_pc
    (decoded : Isa.destination? cpu.datapath.cells.instruction = some .pc)
    (reads : Reads cpu (Isa.source cpu.datapath.cells.instruction) word middle) :
    ∃ next messages, movementMoveStep.run cpu = .ok (.fetch, messages) next ∧
      next.running = cpu.running ∧ next.architecture = { middle.architecture with pc := word } := by
  unfold movementMoveStep instruction
  simp only [EStateM.run_bind, run_readCell, Cells.get, reads.ran, decoded]
  refine ⟨_, _, rfl, reads.running, ?_⟩
  show { middle.architecture with pc := wrap middle.datapath.bits word } = _
  rw [reads.wrap_eq]

/-- A movement to another cell, to the outputs or to nowhere delivers its word. -/
theorem run_movementMoveStep_cell
    (decoded : Isa.destination? cpu.datapath.cells.instruction = some destination)
    (reads : Reads cpu (Isa.source cpu.datapath.cells.instruction) word middle)
    (cell : flushed destination = false) (jump : destination ≠ .pc) :
    ∃ next messages, movementMoveStep.run cpu = .ok (.finish, messages) next ∧
      next.running = cpu.running ∧
      (Exec.deliver word destination).run middle.architecture = .ok () next.architecture := by
  unfold movementMoveStep instruction
  simp only [EStateM.run_bind, run_readCell, Cells.get, reads.ran, decoded]
  cases destination
  case memAt | mem | stackAt | stack | push => cases cell
  case pc => exact absurd rfl jump
  case nul => exact ⟨_, _, rfl, reads.running, rfl⟩
  case out => exact ⟨_, _, rfl, reads.running, rfl⟩
  all_goals
    refine ⟨_, _, rfl, reads.running, ?_⟩
    exact congrArg (fun w => (Exec.deliver w _).run middle.architecture) reads.wrap_eq.symm

/-- A movement to memory is buffered. -/
theorem run_movementMoveStep_memory
    (decoded : Isa.destination? cpu.datapath.cells.instruction = some destination)
    (reads : Reads cpu (Isa.source cpu.datapath.cells.instruction) word middle)
    (memory : flushed destination = true) (plain : destination ≠ .push) :
    ∃ next messages, movementMoveStep.run cpu = .ok (.movementFlush, messages) next ∧
      next.datapath.cells.buffer = word ∧ Leads cpu next middle.architecture := by
  have same : middle.datapath.cells.instruction = cpu.datapath.cells.instruction := by
    rw [reads.cells]
  unfold movementMoveStep instruction
  simp only [EStateM.run_bind, run_readCell, Cells.get, reads.ran, decoded]
  cases destination
  case memAt | mem | stackAt | stack =>
    exact ⟨_, _, rfl, reads.wrap_eq, rfl, reads.running, same⟩
  case push => exact absurd rfl plain
  all_goals cases memory

/-- A push buffers its word and makes room for it. -/
theorem run_movementMoveStep_push
    (decoded : Isa.destination? cpu.datapath.cells.instruction = some .push)
    (reads : Reads cpu (Isa.source cpu.datapath.cells.instruction) word middle) :
    ∃ next messages, movementMoveStep.run cpu = .ok (.movementFlush, messages) next ∧
      next.datapath.cells.buffer = word ∧
      Leads cpu next
        { middle.architecture with
          sp := wrap middle.architecture.bits (middle.architecture.sp - 1), n := 0 } := by
  have same : middle.datapath.cells.instruction = cpu.datapath.cells.instruction := by
    rw [reads.cells]
  unfold movementMoveStep instruction
  simp only [EStateM.run_bind, run_readCell, Cells.get, reads.ran, decoded]
  refine ⟨_, _, rfl, reads.wrap_eq, ?_, reads.running, same⟩
  show { middle.architecture with
    sp := wrap middle.architecture.bits (middle.architecture.sp - 1)
    n := wrap middle.datapath.bits 0 } = _
  have zero : wrap middle.datapath.bits 0 = 0 := wrap_of_lt (wordCount_pos _)
  rw [zero]

end

/-- What the buffered word is flushed to. -/
def flushPlace : Isa.Destination → Isa.Destination
  | .memAt | .mem => .mem
  | _ => .stack

theorem run_flushTo_ok {address : Nat} (onStack : Bool) {memory : Memory}
    (written : cpu.datapath.memory.write address
      (wrap cpu.datapath.bits cpu.datapath.cells.buffer) = .ok memory) :
    ∃ next messages, (flushTo address onStack).run cpu = .ok (.finish, messages) next ∧
      next.running = cpu.running ∧
      next.architecture = { cpu.architecture with memory := memory } := by
  have ran := run_writeMemory_ok
    { cpu with datapath := (cpu.datapath.readCell .buffer).2 } written
  unfold flushTo
  simp only [EStateM.run_bind, run_readCell, Cells.get, ran]
  exact ⟨_, _, rfl, rfl, rfl⟩

theorem run_flushTo_error {address : Nat} (onStack : Bool)
    (written : cpu.datapath.memory.write address
      (wrap cpu.datapath.bits cpu.datapath.cells.buffer) = .error fault) :
    ∃ next, (flushTo address onStack).run cpu = .error fault next ∧
      next.architecture = cpu.architecture := by
  have ran := run_writeMemory_error
    { cpu with datapath := (cpu.datapath.readCell .buffer).2 } written
  unfold flushTo
  simp only [EStateM.run_bind, run_readCell, Cells.get, ran]
  exact ⟨_, rfl, rfl⟩

/-- The address of a stack cell to be written, with the flags that its computation sets. -/
theorem run_evaluate_stackWrite (cpu : Cpu) :
    ∃ address next, (evaluate .stackWrite).run cpu = .ok address next ∧
      (Exec.stackAddress Architecture.n).run cpu.architecture = .ok address next.architecture ∧
      next.datapath.cells.buffer = cpu.datapath.cells.buffer ∧
      next.datapath.bits = cpu.datapath.bits ∧ next.running = cpu.running :=
  ⟨_, _, rfl, rfl, rfl, rfl, rfl⟩

/-- A flush to a row of memory cells. -/
theorem run_flushTo (address : Nat) (onStack : Bool)
    (lt : cpu.datapath.cells.buffer < wordCount cpu.datapath.bits) :
    (∃ next messages, (flushTo address onStack).run cpu = .ok (.finish, messages) next ∧
      next.running = cpu.running ∧
      (Exec.store address cpu.datapath.cells.buffer).run cpu.architecture =
        .ok () next.architecture) ∨
    ∃ fault next, (flushTo address onStack).run cpu = .error fault next ∧
      (Exec.store address cpu.datapath.cells.buffer).run cpu.architecture =
        .error fault next.architecture := by
  have wrapped := wrap_of_lt lt
  cases written : cpu.datapath.memory.write address cpu.datapath.cells.buffer with
  | ok memory =>
    rw [← wrapped] at written
    obtain ⟨next, messages, ran, running, same⟩ := run_flushTo_ok _ onStack written
    rw [wrapped] at written
    refine .inl ⟨next, messages, ran, running, ?_⟩
    rw [same]
    exact Exec.run_store_ok written
  | error fault =>
    rw [← wrapped] at written
    obtain ⟨next, ran, same⟩ := run_flushTo_error _ onStack written
    rw [wrapped] at written
    refine .inr ⟨fault, next, ran, ?_⟩
    rw [same]
    exact Exec.run_store_error written

/-- The flush delivers the buffered word, or faults where that does. -/
theorem run_movementFlushStep {destination : Isa.Destination}
    (decoded : Isa.destination? cpu.datapath.cells.instruction = some destination)
    (lt : cpu.datapath.cells.buffer < wordCount cpu.datapath.bits) :
    (∃ next messages, movementFlushStep.run cpu = .ok (.finish, messages) next ∧
      next.running = cpu.running ∧
      (Exec.deliver cpu.datapath.cells.buffer (flushPlace destination)).run cpu.architecture =
        .ok () next.architecture) ∨
    ∃ fault next, movementFlushStep.run cpu = .error fault next ∧
      (Exec.deliver cpu.datapath.cells.buffer (flushPlace destination)).run cpu.architecture =
        .error fault next.architecture := by
  have stack : (∃ next messages,
      (do flushTo (← evaluate .stackWrite) true).run
          { cpu with datapath := (cpu.datapath.readCell .instruction).2 } =
        .ok (.finish, messages) next ∧ next.running = cpu.running ∧
      (Exec.deliver cpu.datapath.cells.buffer .stack).run cpu.architecture =
        .ok () next.architecture) ∨
      ∃ fault next,
        (do flushTo (← evaluate .stackWrite) true).run
            { cpu with datapath := (cpu.datapath.readCell .instruction).2 } =
          .error fault next ∧
        (Exec.deliver cpu.datapath.cells.buffer .stack).run cpu.architecture =
          .error fault next.architecture := by
    obtain ⟨address, middle, ran, seen, buffer, bits, running⟩ := run_evaluate_stackWrite
      { cpu with datapath := (cpu.datapath.readCell .instruction).2 }
    have fits : middle.datapath.cells.buffer < wordCount middle.datapath.bits := by
      rw [buffer, bits]
      exact lt
    have same : middle.datapath.cells.buffer = cpu.datapath.cells.buffer := buffer
    rcases run_flushTo middle address true fits with
      ⟨next, messages, flushed, awake, stored⟩ | ⟨fault, next, flushed, stored⟩
    · refine .inl ⟨next, messages, ?_, awake.trans running, ?_⟩
      · rw [EStateM.run_bind, ran]
        exact flushed
      · rw [same] at stored
        exact (Exec.run_bind_ok seen _).trans stored
    · refine .inr ⟨fault, next, ?_, ?_⟩
      · rw [EStateM.run_bind, ran]
        exact flushed
      · rw [same] at stored
        exact (Exec.run_bind_ok seen _).trans stored
  unfold movementFlushStep instruction
  simp only [EStateM.run_bind, run_readCell, Cells.get, decoded]
  cases destination
  case memAt | mem =>
    exact run_flushTo
      { cpu with datapath := ((cpu.datapath.readCell .instruction).2.readCell .n).2 }
      _ false lt
  all_goals exact stack

/-! ## Conditions and actions -/

theorem run_test (target : Isa.Target) (cpu : Cpu) :
    ∃ next, (test target).run cpu = .ok (cpu.architecture.test target) next ∧
      Leads cpu next cpu.architecture := by
  cases target <;> exact ⟨_, rfl, rfl, rfl, rfl⟩

/-- The targets of a condition are tested one after the other; no test changes another one. -/
theorem run_tests (targets : List Isa.Target) : ∀ cpu : Cpu,
    ∃ next, (targets.mapM test).run cpu = .ok (targets.map cpu.architecture.test) next ∧
      Leads cpu next cpu.architecture := by
  induction targets with
  | nil => exact fun cpu => ⟨cpu, rfl, rfl, rfl, rfl⟩
  | cons target rest ih =>
    intro cpu
    obtain ⟨middle, first, leads⟩ := run_test target cpu
    obtain ⟨next, later, led⟩ := ih middle
    rw [leads.seen] at later led
    refine ⟨next, ?_, led.seen, led.running.trans leads.running,
      led.instruction.trans leads.instruction⟩
    rw [List.mapM_cons]
    simp only [EStateM.run_bind, first, later, EStateM.run_pure, List.map_cons]

/-- The end of a condition that is met or not. -/
theorem run_verdict (met : Bool) (cpu : Cpu) :
    ∃ next messages,
      (do
        unless met do
          modify fun cpu => { cpu with skip := true }
        return (.finish, [.tested met]) : Step).run cpu = .ok (.finish, messages) next ∧
      next.running = cpu.running ∧
      next.architecture = { cpu.architecture with skip := cpu.architecture.skip || !met } := by
  cases met with
  | true =>
    refine ⟨cpu, _, rfl, rfl, ?_⟩
    rw [Bool.not_true, Bool.or_false]
  | false =>
    refine ⟨{ cpu with skip := true }, _, rfl, rfl, ?_⟩
    rw [Bool.not_false, Bool.or_true]
    rfl

theorem run_conditionStep (cpu : Cpu) :
    ∃ next messages, conditionStep.run cpu = .ok (.finish, messages) next ∧
      next.running = cpu.running ∧
      next.architecture =
        { cpu.architecture with
          skip := cpu.architecture.skip ||
            !cpu.architecture.meets (Isa.condition cpu.datapath.cells.instruction) } := by
  obtain ⟨next, ran, leads⟩ := run_tests (Isa.condition cpu.datapath.cells.instruction).targets
    { cpu with datapath := (cpu.datapath.readCell .instruction).2 }
  have seen : next.architecture = cpu.architecture := leads.seen
  have running : next.running = cpu.running := leads.running
  obtain ⟨last, messages, ended, awake, same⟩ :=
    run_verdict (cpu.architecture.meets (Isa.condition cpu.datapath.cells.instruction)) next
  rw [seen] at same
  refine ⟨last, messages, ?_, awake.trans running, same⟩
  unfold conditionStep instruction
  simp only [EStateM.run_bind, run_readCell, Cells.get, ran, List.any_map, List.all_map]
  exact ended

theorem run_actionStep_none (undecoded : Isa.action? cpu.datapath.cells.instruction = none) :
    ∃ next, actionStep.run cpu =
        .error (.noAction cpu.datapath.cells.instruction cpu.datapath.cells.pc) next ∧
      next.architecture = cpu.architecture := by
  unfold actionStep instruction
  simp only [EStateM.run_bind, run_readCell, Cells.get, undecoded]
  exact ⟨_, rfl, rfl⟩

/-- An action leads to the end of its instruction, or stops the machine. -/
theorem run_actionStep {x : Isa.Action}
    (decoded : Isa.action? cpu.datapath.cells.instruction = some x) :
    (∃ next messages, actionStep.run cpu = .ok (.finish, messages) next ∧
      next.running = cpu.running ∧
      (Exec.advance 1).result next.architecture = (Exec.action x).result cpu.architecture) ∨
    ∃ state next messages, actionStep.run cpu = .ok (state, messages) next ∧
      next.running = false ∧
      { next with state := state }.architecture = (Exec.action x).result cpu.architecture := by
  unfold actionStep instruction
  simp only [EStateM.run_bind, run_readCell, Cells.get, decoded]
  cases x with
  | register op r =>
    refine .inl ⟨_, _, rfl, rfl, ?_⟩
    cases r <;> rfl
  | control control =>
    cases control with
    | pop => exact .inl ⟨_, _, rfl, rfl, rfl⟩
    | done => exact .inr ⟨_, _, _, rfl, rfl, rfl⟩
    | pause => exact .inr ⟨_, _, _, rfl, rfl, rfl⟩
    | halt => exact .inr ⟨_, _, _, rfl, rfl, rfl⟩

/-! ## Fetching -/

theorem run_fetchStep_error
    (read : cpu.datapath.memory.read cpu.datapath.cells.pc = .error fault) :
    ∃ next, fetchStep.run cpu = .error fault next ∧ next.architecture = cpu.architecture := by
  have ran := run_readMemory_error
    { cpu with datapath := (cpu.datapath.readCell .pc).2 } read
  unfold fetchStep
  simp only [EStateM.run_bind, run_readCell, Cells.get, ran]
  exact ⟨_, rfl, rfl⟩

section
variable (read : cpu.datapath.memory.read cpu.datapath.cells.pc = .ok word)

include read

/-- A skipped word is measured: what follows is as many steps of the program counter as it has
    words. -/
theorem run_fetchStep_skip (skip : cpu.skip = true) :
    ∃ next messages, fetchStep.run cpu =
        .ok (match Isa.operandCount word with
          | 0 => .finish
          | 1 => .skipOne
          | _ => .skipTwo, messages) next ∧
      next.running = cpu.running ∧
      next.architecture = { cpu.architecture with skip := false } := by
  have ran := run_readMemory_ok
    { cpu with datapath := (cpu.datapath.readCell .pc).2 } read
  unfold fetchStep
  simp only [EStateM.run_bind, run_readCell, Cells.get, ran, run_writeCell, EStateM.run_get]
  rw [if_pos skip]
  exact ⟨_, _, rfl, rfl, rfl⟩

/-- A word that is no instruction. -/
theorem run_fetchStep_none (skip : cpu.skip = false)
    (undecoded : Isa.kind? word = none ∨
      Isa.kind? word = some .movement ∧ Isa.destination? word = none) :
    ∃ next, fetchStep.run cpu = .error (.noInstruction word cpu.datapath.cells.pc) next ∧
      next.architecture = cpu.architecture := by
  have ran := run_readMemory_ok
    { cpu with datapath := (cpu.datapath.readCell .pc).2 } read
  unfold fetchStep
  simp only [EStateM.run_bind, run_readCell, Cells.get, ran, run_writeCell, EStateM.run_get]
  rw [if_neg (by rw [skip]; decide)]
  rcases undecoded with none | ⟨movement, none⟩
  · rw [none]
    exact ⟨_, rfl, rfl⟩
  · rw [movement, none]
    exact ⟨_, rfl, rfl⟩

/-- The micro-state of a kind of instruction. -/
theorem run_fetchStep_kind {kind : Isa.Kind} (lt : word < wordCount cpu.datapath.bits)
    (skip : cpu.skip = false)
    (decoded : Isa.kind? word = some kind)
    (assigned : kind = .movement → (Isa.destination? word).isSome = true) :
    ∃ next messages, fetchStep.run cpu =
        .ok (match kind with
          | .movement => .movement
          | .condition => .condition
          | .action => .action, messages) next ∧
      next.running = cpu.running ∧ next.datapath.cells.instruction = word ∧
      next.architecture = cpu.architecture := by
  have ran := run_readMemory_ok
    { cpu with datapath := (cpu.datapath.readCell .pc).2 } read
  unfold fetchStep
  simp only [EStateM.run_bind, run_readCell, Cells.get, ran, run_writeCell, EStateM.run_get]
  rw [if_neg (by rw [skip]; decide), decoded]
  cases kind with
  | movement =>
    obtain ⟨destination, found⟩ := Option.isSome_iff_exists.1 (assigned rfl)
    rw [found]
    exact ⟨_, _, rfl, rfl, wrap_of_lt lt, rfl⟩
  | condition => exact ⟨_, _, rfl, rfl, wrap_of_lt lt, rfl⟩
  | action => exact ⟨_, _, rfl, rfl, wrap_of_lt lt, rfl⟩

end

end Micro

end Cpu

end NineBit.Machine

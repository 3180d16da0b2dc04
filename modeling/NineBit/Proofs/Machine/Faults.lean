import NineBit.Proofs.Machine.Refinement

/-!
# Faults

A micro-step that faults does so before it has changed anything but the instruction buffer, the
flags and the marks; what it might still have done is not done (`Cpu.Micro.careful_step`). The
memory is changed, and a word put out, only by a micro-step that leads to the end of its
instruction, and from there nothing faults. A fault therefore finds what its instruction found
(`Cpu.Underway.state_of_finish`), and nothing but a reset goes on from it (`Cpu.clean_of_faults`).
-/

namespace NineBit.Machine

namespace Cpu

/-- The next tick of a processor meets a fault. -/
def FaultsWith (cpu : Cpu) (fault : Fault) : Prop :=
  cpu.running = true ∧ ∃ next, (Micro.step cpu.state).run cpu.clearMarks = .error fault next

/-- The memory and what has been put out are the same. -/
structure SameOutside (cpu next : Cpu) : Prop where
  memory : next.datapath.memory = cpu.datapath.memory
  outputs : next.outputs = cpu.outputs

/-- Whatever outlasts an instruction is the same, the flags apart: only the instruction buffer may
    hold another word. -/
structure Untouched (cpu next : Cpu) : Prop extends SameOutside cpu next where
  skip : next.skip = cpu.skip
  cell : ∀ cell, cell ≠ .instruction → next.datapath.cells.get cell = cpu.datapath.cells.get cell

/-- What can happen to a processor without a reset. -/
inductive Unreset (cpu : Cpu) : Cpu → Prop where
  | here : Unreset cpu cpu
  | tick {later : Cpu} : Unreset cpu later → Unreset cpu later.tick.1
  | resume {later : Cpu} : Unreset cpu later → Unreset cpu later.resume
  | load {later next : Cpu} {words : List Int} :
      Unreset cpu later → later.load words = .ok next → Unreset cpu next
  | write {later : Cpu} {datapath : Datapath} {address value : Int} :
      Unreset cpu later → later.datapath.writeMemory address value = .ok datapath →
        Unreset cpu { later with datapath := datapath }

/-- What can happen while an instruction goes on: ticks that neither come to the next fetch nor stop
    the processor, and between them whatever is done to the memory from outside. -/
inductive Underway (cpu : Cpu) : Cpu → Prop where
  | here : Underway cpu cpu
  | tick {later : Cpu} : Underway cpu later → ¬later.tick.1.Settled → Underway cpu later.tick.1
  | load {later next : Cpu} {words : List Int} :
      Underway cpu later → later.load words = .ok next → Underway cpu next
  | write {later : Cpu} {datapath : Datapath} {address value : Int} :
      Underway cpu later → later.datapath.writeMemory address value = .ok datapath →
        Underway cpu { later with datapath := datapath }

namespace Micro

variable {α β : Type} {c : Cpu}

/-! ## Parts of micro-steps -/

/-- A part that changes nothing but the instruction buffer, the flags and the marks, whether it
    faults or not. -/
abbrev Calm (c : Cpu) (m : Micro α) : Prop :=
  Ensures (Untouched c) m (fun _ => Untouched c) (Untouched c)

/-- A part that changes neither the memory nor what has been put out, and does not fault. -/
abbrev Inside (c : Cpu) (m : Micro α) : Prop :=
  Ensures (SameOutside c) m (fun _ => SameOutside c) fun _ => False

/-- A micro-step that has changed next to nothing when it faults, and changes the memory or puts a
    word out only at the end of its instruction. -/
abbrev Careful (c : Cpu) (m : Step) : Prop :=
  Ensures (Untouched c) m (fun result cpu => result.1 = .finish ∨ SameOutside c cpu) (Untouched c)

theorem calm_use {f : Datapath → α × Datapath} (memory : ∀ p, (f p).2.memory = p.memory)
    (cells : ∀ p, (f p).2.cells = p.cells) : Calm c (use f) := by
  intro cpu same
  refine ⟨⟨(memory _).trans same.memory, same.outputs⟩, same.skip, fun cell other => ?_⟩
  show (f cpu.datapath).2.cells.get cell = _
  rw [cells]
  exact same.cell cell other

theorem calm_readCell (cell : Cell) : Calm c (readCell cell) :=
  calm_use (fun _ => rfl) fun _ => rfl

theorem calm_evaluate (k : Combinator) : Calm c (evaluate k) :=
  calm_use (fun _ => rfl) fun _ => rfl

theorem calm_readMemory (address : Nat) : Calm c (readMemory address) := by
  intro cpu same
  unfold EStateM.run readMemory Datapath.readMemory
  cases cpu.datapath.memory.read address with
  | ok word | error fault => exact ⟨⟨same.memory, same.outputs⟩, same.skip, same.cell⟩

/-- The instruction buffer may be written. -/
theorem calm_writeInstruction (value : Nat) : Calm c (writeCell .instruction value) := by
  intro cpu same
  refine ⟨⟨same.memory, same.outputs⟩, same.skip, fun cell other => ?_⟩
  exact (Cells.get_set_of_ne _ _ other).trans (same.cell cell other)

theorem calm_test (target : Isa.Target) : Calm c (test target) := by
  cases target
  case zeroFlag | carryFlag => exact .bind .get fun _ => .pure fun _ h => h.2
  all_goals exact .bind (calm_readCell _) fun _ => .pure fun _ h => h

theorem calm_tests (targets : List Isa.Target) : Calm c (targets.mapM test) := by
  induction targets with
  | nil => exact .pure fun _ h => h
  | cons target rest ih =>
    rw [List.mapM_cons]
    exact .bind (calm_test target) fun _ => .bind ih fun _ => .pure fun _ h => h

theorem calm_readSource (source : Isa.Source) : Calm c (readSource source) := by
  cases source
  case zero => exact .pure fun _ h => h
  case sum | sub | and | or | xor | stackptrAt => exact calm_evaluate _
  all_goals exact calm_readCell _

theorem inside_change {f : Datapath → Datapath} (memory : ∀ p, (f p).memory = p.memory) :
    Inside c (change f) :=
  fun _ same => ⟨(memory _).trans same.memory, same.outputs⟩

theorem inside_writeCell (cell : Cell) (value : Nat) : Inside c (writeCell cell value) :=
  inside_change fun _ => rfl

theorem inside_operate (cell : Cell) (op : Isa.Operation) : Inside c (operate cell op) :=
  inside_change fun _ => rfl

/-- Changes of the control that are no output. -/
theorem inside_modify {f : Cpu → Cpu} (datapath : ∀ cpu, (f cpu).datapath = cpu.datapath)
    (outputs : ∀ cpu, (f cpu).outputs = cpu.outputs) : Inside c (modify f) := by
  intro cpu same
  exact ⟨(congrArg Datapath.memory (datapath cpu)).trans same.memory,
    (outputs cpu).trans same.outputs⟩

/-! ## Whole micro-steps -/

/-- A micro-step that does not fault may change whatever an instruction changes before its end. -/
theorem careful_of_inside {m : Step} (inside : Inside c m) : Careful c m :=
  .mono inside (fun _ same => same.toSameOutside) (fun _ _ same => .inr same)
    fun _ none => none.elim

/-- The last part of a micro-step that no longer faults. -/
theorem careful_last {m : Micro α} {result : α → MicroState × List Message}
    (inside : Inside c m) : Careful c (do let a ← m; return result a) :=
  careful_of_inside (.bind inside fun _ => .pure fun _ same => same)

theorem careful_pure (result : MicroState × List Message) : Careful c (Pure.pure result) :=
  .pure fun _ same => .inr same.toSameOutside

theorem careful_advance (next : MicroState) (messages : List Message) :
    Careful c (advance next messages) :=
  careful_last (inside_operate _ _)

theorem careful_resetStep : Careful c resetStep := by
  refine careful_of_inside (.bind (inside_writeCell _ _) fun _ => .bind .get fun now => ?_)
  refine .mono (P := SameOutside c) ?_ (fun _ same => same.2) (fun _ _ done => done)
    fun _ none => none
  exact .bind (inside_writeCell _ _) fun _ => .pure fun _ same => same

theorem careful_fetchStep : Careful c fetchStep := by
  refine .bind (calm_readCell _) fun address => .bind (calm_readMemory _) fun word =>
    .bind (calm_writeInstruction _) fun _ => .bind .get fun now => ?_
  refine .mono (P := Untouched c) ?_ (fun _ same => same.2) (fun _ _ done => done)
    fun _ same => same
  refine .ite (careful_last (inside_modify (fun _ => rfl) fun _ => rfl)) ?_
  cases Isa.kind? word with
  | none => exact .throw fun _ same => same
  | some kind =>
    cases kind with
    | movement =>
      exact .ite (.bind (Q := fun _ => Untouched c) (.throw fun _ same => same) fun _ =>
        careful_pure _) (careful_pure _)
    | condition => exact careful_pure _
    | action => exact careful_pure _

theorem careful_conditionStep : Careful c conditionStep := by
  refine .bind (calm_readCell _) fun word => .bind (calm_tests _) fun results => .ite ?_ ?_
  · exact careful_pure _
  · exact careful_last (inside_modify (fun _ => rfl) fun _ => rfl)

theorem careful_stop (state : MicroState) (control : Isa.Control) :
    Careful c (stop state control) :=
  careful_last (inside_modify (fun _ => rfl) fun _ => rfl)

theorem careful_actionStep : Careful c actionStep := by
  refine .bind (calm_readCell _) fun word => ?_
  cases Isa.action? word with
  | none => exact .bind .get fun _ => .throw fun _ same => same.2
  | some action =>
    cases action with
    | register op r => exact careful_last (inside_operate _ _)
    | control control =>
      cases control with
      | pop => exact careful_last (inside_operate _ _)
      | _ => exact careful_stop _ _

theorem calm_readOperand : Calm c readOperand :=
  .bind (calm_readCell _) fun _ => calm_readMemory _

theorem careful_sourceOperandStep : Careful c sourceOperandStep := by
  refine .bind calm_readOperand fun value => careful_of_inside ?_
  refine .bind (inside_writeCell _ _) fun _ => .bind (Q := fun _ => SameOutside c) ?_ fun word => ?_
  · exact fun _ same => ⟨same.memory, same.outputs⟩
  · exact .pure fun _ same => same

theorem careful_movementFetchStep : Careful c movementFetchStep := by
  have buffers (address : Nat) : Careful c (bufferFrom address) :=
    .bind (calm_readMemory _) fun _ => careful_last (inside_writeCell _ _)
  refine .bind (calm_readCell _) fun word => ?_
  cases Isa.source word
  case memAt | mem => exact .bind (calm_readCell _) fun _ => buffers _
  case stackAt | stack => exact .bind (calm_evaluate _) fun _ => buffers _
  all_goals exact careful_pure _

theorem careful_movementMoveStep : Careful c movementMoveStep := by
  refine .bind (calm_readCell _) fun word => .bind (calm_readSource _) fun value => ?_
  cases Isa.destination? word with
  | none => exact careful_pure _
  | some destination =>
    cases destination
    case nul => exact careful_pure _
    case push =>
      exact careful_of_inside (.bind (inside_writeCell _ _) fun _ =>
        .bind (inside_operate _ _) fun _ => .bind (inside_writeCell _ _) fun _ =>
          .pure fun _ same => same)
    case out =>
      exact .bind (.modify (Q := fun _ _ => True) fun _ _ => trivial) fun _ =>
        .pure fun _ _ => .inl rfl
    all_goals exact careful_last (inside_writeCell _ _)

theorem careful_flushTo (address : Nat) (onStack : Bool) : Careful c (flushTo address onStack) := by
  refine .bind (calm_readCell _) fun value => .bind (Q := fun _ _ => True) ?_ fun _ =>
    .pure fun _ _ => .inl rfl
  intro cpu same
  unfold EStateM.run writeMemory
  cases cpu.datapath.writeMemory address value with
  | ok datapath => trivial
  | error fault => exact same

theorem careful_movementFlushStep : Careful c movementFlushStep := by
  refine .bind (calm_readCell _) fun word => ?_
  split
  · exact .bind (calm_readCell _) fun _ => careful_flushTo _ _
  · exact .bind (calm_readCell _) fun _ => careful_flushTo _ _
  · exact .bind (calm_evaluate _) fun _ => careful_flushTo _ _

/-- Every micro-step faults, if it does, before it changes what a program sees, and changes the
    memory or puts a word out only at the end of its instruction. -/
theorem careful_step (c : Cpu) (state : MicroState) : Careful c (step state) := by
  cases state with
  | reset => exact careful_resetStep
  | fetch => exact careful_fetchStep
  | condition => exact careful_conditionStep
  | action => exact careful_actionStep
  | done | pause => exact careful_pure _
  | halted => exact careful_last (inside_modify (fun _ => rfl) fun _ => rfl)
  | movement => exact .bind (calm_readCell _) fun _ => careful_pure _
  | sourceOperandLoad => exact careful_sourceOperandStep
  | destinationOperandLoad =>
    exact .bind calm_readOperand fun _ => careful_last (inside_writeCell _ _)
  | movementFetch => exact careful_movementFetchStep
  | movementMove => exact careful_movementMoveStep
  | movementFlush => exact careful_movementFlushStep
  | skipTwo | skipOne | sourceOperand | destinationOperand | finish => exact careful_advance _ _

end Micro

/-! ## Ticks that fault -/

section
variable {cpu : Cpu} {fault : Fault}

theorem messages_of_error {next : Cpu} (running : cpu.running = true)
    (ran : (Micro.step cpu.state).run cpu.clearMarks = .error fault next) :
    cpu.tick.2 = [.fault fault] := by
  unfold tick
  simp [running, ran]

theorem FaultsWith.state_ne_finish (faults : cpu.FaultsWith fault) : cpu.state ≠ .finish := by
  intro finish
  obtain ⟨-, next, ran⟩ := faults
  rw [finish] at ran
  cases ran

theorem FaultsWith.messages (faults : cpu.FaultsWith fault) : cpu.tick.2 = [.fault fault] := by
  obtain ⟨running, next, ran⟩ := faults
  exact messages_of_error running ran

/-- A tick that faults records the fault and stops the processor for good. -/
theorem FaultsWith.stops (faults : cpu.FaultsWith fault) :
    cpu.tick.1.failure = some ⟨cpu.state, fault⟩ ∧ cpu.tick.1.state = .halted ∧
      cpu.tick.1.running = false := by
  obtain ⟨running, next, ran⟩ := faults
  rw [tick_of_error running ran]
  exact ⟨rfl, rfl, rfl⟩

theorem FaultsWith.untouched (faults : cpu.FaultsWith fault) : cpu.Untouched cpu.tick.1 := by
  obtain ⟨running, next, ran⟩ := faults
  have careful := Micro.careful_step cpu cpu.state cpu.clearMarks
    ⟨⟨rfl, rfl⟩, rfl, fun _ _ => rfl⟩
  rw [ran] at careful
  rw [tick_of_error running ran]
  exact ⟨⟨careful.memory, careful.outputs⟩, careful.skip, careful.cell⟩

/-! ## After a fault -/

/-- A processor that has halted and does not run stays as it is, whatever happens to its memory,
    until it is reset. -/
theorem Unreset.halted {later : Cpu} (unreset : cpu.Unreset later)
    (stopped : cpu.running = false) (halted : cpu.state = .halted) :
    later.running = false ∧ later.state = .halted ∧ later.failure = cpu.failure := by
  induction unreset with
  | here => exact ⟨stopped, halted, rfl⟩
  | tick _ ih =>
    rw [tick_of_stopped ih.1]
    exact ih
  | @resume later _ ih =>
    have stays : later.resume = later := by simp [Cpu.resume, resumable, ih.2.1]
    rw [stays]
    exact ih
  | load _ loaded ih =>
    obtain ⟨datapath, rfl⟩ := load_eq_ok loaded
    exact ih
  | write _ _ ih => exact ih

/-! ## Instructions that fault -/

/-- A tick that changes the memory or puts out a word comes to the end of its instruction. -/
theorem sameOutside_or_finish (running : cpu.running = true) :
    cpu.tick.1.state = .finish ∨ cpu.SameOutside cpu.tick.1 := by
  have careful := Micro.careful_step cpu cpu.state cpu.clearMarks
    ⟨⟨rfl, rfl⟩, rfl, fun _ _ => rfl⟩
  cases ran : (Micro.step cpu.state).run cpu.clearMarks with
  | ok result next =>
    rw [ran] at careful
    rw [tick_of_ok running ran]
    exact careful.imp id fun same => ⟨same.memory, same.outputs⟩
  | error fault next =>
    rw [ran] at careful
    rw [tick_of_error running ran]
    exact .inr ⟨careful.memory, careful.outputs⟩

/-- An instruction that has come to its end is followed by a fetch. -/
theorem settled_of_finish (finish : cpu.state = .finish) : cpu.tick.1.Settled := by
  cases running : cpu.running with
  | false =>
    rw [tick_of_stopped running]
    exact .inr running
  | true =>
    obtain ⟨next, ran, -⟩ := Micro.run_advance .fetch [] cpu.clearMarks
    rw [tick_of_ok running (by rw [finish]; exact ran)]
    exact .inl rfl

/-- From the end of an instruction nothing else of it is left. -/
theorem Underway.state_of_finish {later : Cpu} (underway : cpu.Underway later)
    (finish : cpu.state = .finish) : later.state = .finish := by
  induction underway with
  | here => exact finish
  | tick _ unsettled ih => exact absurd (settled_of_finish ih) unsettled
  | load _ loaded ih =>
    obtain ⟨datapath, rfl⟩ := load_eq_ok loaded
    exact ih
  | write _ _ ih => exact ih

/-- No tick of an instruction that is going to fault changes the memory or puts out a word. -/
theorem FaultsWith.sameOutside {earlier : Cpu} (faults : cpu.FaultsWith fault)
    (unsettled : ¬earlier.tick.1.Settled) (underway : earlier.tick.1.Underway cpu) :
    earlier.SameOutside earlier.tick.1 := by
  have running : earlier.running = true := by
    cases running : earlier.running with
    | true => rfl
    | false =>
      rw [tick_of_stopped running] at unsettled
      exact absurd (.inr running) unsettled
  rcases sameOutside_or_finish running with finish | same
  · exact absurd (underway.state_of_finish finish) faults.state_ne_finish
  · exact same

theorem ticks_succ (cpu : Cpu) (n : Nat) : cpu.ticks (n + 1) = (cpu.ticks n).tick.1 := by
  induction n generalizing cpu with
  | zero => rfl
  | succ n ih => exact ih cpu.tick.1

/-- Ticks that do not come to a fetch belong to one instruction. -/
theorem underway_ticks {n : Nat} (unsettled : ∀ k, 0 < k → k ≤ n → ¬(cpu.ticks k).Settled) :
    cpu.Underway (cpu.ticks n) := by
  induction n with
  | zero => exact .here
  | succ n ih =>
    have next := unsettled (n + 1) (by omega) (by omega)
    rw [ticks_succ] at next ⊢
    exact .tick (ih fun k pos le => unsettled k pos (by omega)) next

/-- By the ticks of an instruction before its fault, nothing has been changed outside. -/
theorem FaultsWith.since {n : Nat} (unsettled : ∀ k, 0 < k → k ≤ n → ¬(cpu.ticks k).Settled)
    (faults : (cpu.ticks n).FaultsWith fault) : cpu.SameOutside (cpu.ticks n) := by
  induction n generalizing cpu with
  | zero => exact ⟨rfl, rfl⟩
  | succ n ih =>
    have first : ¬cpu.tick.1.Settled := unsettled 1 (by omega) (by omega)
    have rest : ∀ k, 0 < k → k ≤ n → ¬(cpu.tick.1.ticks k).Settled := fun k pos le =>
      unsettled (k + 1) (by omega) (by omega)
    have start := FaultsWith.sameOutside faults first (underway_ticks rest)
    have later := ih rest faults
    exact ⟨later.memory.trans start.memory, later.outputs.trans start.outputs⟩

end

/-- What a tick that meets a fault leaves behind. -/
structure CleanFault (cpu : Cpu) (fault : Fault) : Prop where
  /-- Memory, outputs, the pending skip and all cells but the instruction buffer are as before. -/
  untouched : cpu.Untouched cpu.tick.1
  told : cpu.tick.2.map Message.text = ["[ERR] " ++ fault.message]
  recorded : cpu.tick.1.failure = some ⟨cpu.state, fault⟩
  halted : cpu.tick.1.state = .halted ∧ cpu.tick.1.running = false
  /-- Until a reset, whatever is done to the memory, a tick only clears the marks and a resumption
      does nothing. -/
  lasting : ∀ later, cpu.tick.1.Unreset later →
    later.tick = (later.clearMarks, []) ∧ later.resume = later ∧
      later.failure = some ⟨cpu.state, fault⟩
  /-- No earlier tick of the instruction has changed the memory or put out a word, whatever was
      written to the memory between its ticks. -/
  instruction : ∀ earlier : Cpu, ¬earlier.tick.1.Settled → earlier.tick.1.Underway cpu →
    earlier.SameOutside earlier.tick.1
  /-- If nothing was, memory and outputs are those at the fetch. -/
  since : ∀ (start : Cpu) (n : Nat), start.state = .fetch →
    (∀ k, 0 < k → k ≤ n → ¬(start.ticks k).Settled) → start.ticks n = cpu → start.SameOutside cpu

/-- Faults are clean, in whatever micro-state they arise. -/
theorem clean_of_faults {cpu : Cpu} {fault : Fault} (faults : cpu.FaultsWith fault) :
    cpu.CleanFault fault where
  untouched := faults.untouched
  told := by
    rw [faults.messages]
    rfl
  recorded := faults.stops.1
  halted := faults.stops.2
  lasting later unreset := by
    obtain ⟨recorded, halted, stopped⟩ := faults.stops
    obtain ⟨still, state, kept⟩ := unreset.halted stopped halted
    refine ⟨tick_of_stopped still, ?_, kept.trans recorded⟩
    simp [Cpu.resume, resumable, state]
  instruction _ unsettled underway := faults.sameOutside unsettled underway
  since start n _ unsettled same := by
    subst same
    exact faults.since unsettled

/-- A push onto a stack from which more has been taken than was on it: the stack pointer has already
    been moved when the write faults. -/
theorem clean_of_faults_push : ∃ cpu, (Cpu.initial .standard).load [88, 88, 421] = .ok cpu ∧
    (cpu.reset.ticks 10).sp = 257 ∧ (cpu.reset.ticks 11).sp = 256 ∧
    (cpu.reset.ticks 11).CleanFault (.range 256 256) := by
  have runs : ((Cpu.initial .standard).load [88, 88, 421]).toOption.map (fun cpu =>
      (cpu.reset.ticks 10).sp == 257 && (cpu.reset.ticks 11).sp == 256 &&
        (cpu.reset.ticks 11).running &&
        match (Micro.step (cpu.reset.ticks 11).state).run (cpu.reset.ticks 11).clearMarks with
        | .ok _ _ => false
        | .error fault _ => fault == .range 256 256) = some true := by decide +kernel
  cases loaded : (Cpu.initial .standard).load [88, 88, 421] with
  | error fault =>
    rw [loaded] at runs
    cases runs
  | ok cpu =>
    rw [loaded] at runs
    have all := Option.some.inj runs
    simp only [Bool.and_eq_true, beq_iff_eq] at all
    obtain ⟨⟨⟨before, after⟩, running⟩, failed⟩ := all
    refine ⟨cpu, rfl, before, after, clean_of_faults ⟨running, ?_⟩⟩
    split at failed
    · cases failed
    · rename_i fault next ran
      rw [beq_iff_eq] at failed
      exact ⟨next, failed ▸ ran⟩

end Cpu

end NineBit.Machine

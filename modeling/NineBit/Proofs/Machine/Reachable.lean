import NineBit.Machine.Cpu

/-!
# Reachable processors

A processor is reachable when loads, resets, ticks, resumptions and memory writes, in any order,
lead to it from one that was never reset. An operation that fails changes nothing and leads nowhere.
A datapath holds words when every cell and every cell of the memory is a word of the configured
width and the memory has its configured size: each operation of a datapath keeps that, so each
micro-step does, and a tick with it (`Cpu.fits_tick`).
-/

namespace NineBit.Machine

/-- The processors of a configuration that operations lead to. -/
inductive Cpu.Reachable (config : Config) : Cpu → Prop where
  | initial : Reachable config (.initial config)
  | load {cpu next : Cpu} {words : List Int} :
      Reachable config cpu → cpu.load words = .ok next → Reachable config next
  | reset {cpu : Cpu} : Reachable config cpu → Reachable config cpu.reset
  | tick {cpu : Cpu} : Reachable config cpu → Reachable config cpu.tick.1
  | resume {cpu : Cpu} : Reachable config cpu → Reachable config cpu.resume
  | write {cpu : Cpu} {datapath : Datapath} {address value : Int} :
      Reachable config cpu → cpu.datapath.writeMemory address value = .ok datapath →
        Reachable config { cpu with datapath := datapath }

/-! ## Memories of words -/

/-- Every cell of a memory is a word. -/
def Memory.Fits (bits : Nat) (m : Memory) : Prop := ∀ word ∈ m.cells, word < wordCount bits

namespace Memory

theorem zeros_fits (bits size : Nat) : (zeros size).Fits bits := by
  intro word member
  rw [Array.eq_of_mem_replicate member]
  exact wordCount_pos bits

@[simp] theorem size_zeros (size : Nat) : (zeros size).size = size := Array.size_replicate

theorem cell_natCast (m : Memory) (address : Nat) :
    m.cell address =
      if address < m.size then .ok address else .error (.range address m.size) := by
  unfold cell
  by_cases inside : address < m.size
  · rw [if_pos inside, if_pos (by omega), Int.toNat_natCast]
  · rw [if_neg inside, if_neg (by omega)]

theorem read_natCast (m : Memory) (address : Nat) :
    m.read address =
      if address < m.size then .ok (m.cells.getD address 0)
      else .error (.range address m.size) := by
  rw [read, cell_natCast]
  split <;> rfl

theorem lt_of_read {m : Memory} {address word : Nat} (h : m.read address = .ok word) :
    address < m.size := by
  rw [read_natCast] at h
  by_cases inside : address < m.size
  · exact inside
  · rw [if_neg inside] at h
    cases h

theorem Fits.getD {bits : Nat} {m : Memory} (fits : m.Fits bits) (i : Nat) :
    m.cells.getD i 0 < wordCount bits := by
  rw [Array.getD_eq_getD_getElem?]
  by_cases inside : i < m.cells.size
  · rw [Array.getElem?_eq_getElem inside, Option.getD_some]
    exact fits _ (Array.getElem_mem inside)
  · rw [Array.getElem?_eq_none (by omega), Option.getD_none]
    exact wordCount_pos bits

theorem Fits.read {bits word : Nat} {m : Memory} (fits : m.Fits bits) {address : Int}
    (h : m.read address = .ok word) : word < wordCount bits := by
  unfold Memory.read at h
  cases found : m.cell address with
  | ok i =>
    rw [found] at h
    cases h
    exact fits.getD i
  | error fault =>
    rw [found] at h
    cases h

/-- A write that succeeds sets one cell. -/
theorem write_eq_ok {m next : Memory} {address : Int} {word : Nat}
    (h : m.write address word = .ok next) :
    ∃ i, m.cell address = .ok i ∧ next = ⟨m.cells.setIfInBounds i word⟩ := by
  unfold write at h
  split at h
  · rename_i i found
    cases h
    exact ⟨i, found, rfl⟩
  · cases h

theorem size_write {m next : Memory} {address : Int} {word : Nat}
    (h : m.write address word = .ok next) : next.size = m.size := by
  obtain ⟨i, -, rfl⟩ := write_eq_ok h
  exact Array.size_setIfInBounds

theorem Fits.write {bits word : Nat} {m next : Memory} (fits : m.Fits bits) {address : Int}
    (h : m.write address word = .ok next) (lt : word < wordCount bits) : next.Fits bits := by
  obtain ⟨i, -, rfl⟩ := write_eq_ok h
  intro other member
  rcases Array.mem_or_eq_of_mem_setIfInBounds member with old | rfl
  · exact fits other old
  · exact lt

theorem size_fill (words : List Nat) : ∀ (cells : Array Nat) (i : Nat),
    (fill cells i words).size = cells.size := by
  induction words with
  | nil => exact fun _ _ => rfl
  | cons word rest ih =>
    intro cells i
    rw [fill, ih, Array.size_setIfInBounds]

theorem mem_fill {words : List Nat} {word : Nat} : ∀ {cells : Array Nat} {i : Nat},
    word ∈ fill cells i words → word ∈ cells ∨ word ∈ words := by
  induction words with
  | nil => exact fun member => .inl member
  | cons first rest ih =>
    intro cells i member
    rcases ih member with old | later
    · rcases Array.mem_or_eq_of_mem_setIfInBounds old with old | rfl
      · exact .inl old
      · exact .inr List.mem_cons_self
    · exact .inr (List.mem_cons_of_mem _ later)

/-- A load that succeeds fills a memory of zeros. -/
theorem load_eq_ok {m next : Memory} {words : List Nat} {address : Int}
    (h : m.load words address = .ok next) :
    ∃ i, next = ⟨fill (zeros m.size).cells i words⟩ := by
  unfold load at h
  split at h
  · cases h
    exact ⟨0, rfl⟩
  · split at h
    · cases h
    · cases h
    · rename_i i _ _ _
      cases h
      exact ⟨i, rfl⟩

theorem size_load {m next : Memory} {words : List Nat} {address : Int}
    (h : m.load words address = .ok next) : next.size = m.size := by
  obtain ⟨i, rfl⟩ := load_eq_ok h
  exact (size_fill _ _ _).trans (size_zeros m.size)

theorem fits_load {bits : Nat} {m next : Memory} {words : List Nat} {address : Int}
    (h : m.load words address = .ok next) (lt : ∀ word ∈ words, word < wordCount bits) :
    next.Fits bits := by
  obtain ⟨i, rfl⟩ := load_eq_ok h
  intro word member
  rcases mem_fill member with zero | given
  · exact zeros_fits bits m.size word zero
  · exact lt word given

end Memory

/-! ## Datapaths of words -/

/-- Everything that a datapath holds is a word of the configured width, and its memory has the
    configured size. -/
structure Datapath.Fits (config : Config) (p : Datapath) : Prop where
  bits : p.bits = config.wordBits
  size : p.memory.size = config.memorySize
  cell : ∀ cell, p.cells.get cell < wordCount p.bits
  memory : p.memory.Fits p.bits

namespace Datapath.Fits

variable {config : Config} {p : Datapath}

theorem initial : (Datapath.initial config.wordBits config.memorySize).Fits config where
  bits := rfl
  size := Memory.size_zeros _
  cell cell := by cases cell <;> exact wordCount_pos _
  memory := Memory.zeros_fits _ _

/-- Marks, flags and the last address do not count. -/
theorem of_eq (fits : p.Fits config) {q : Datapath} (bits : q.bits = p.bits)
    (cells : q.cells = p.cells) (memory : q.memory = p.memory) : q.Fits config where
  bits := bits.trans fits.bits
  size := by rw [memory]; exact fits.size
  cell cell := by rw [cells, bits]; exact fits.cell cell
  memory := by rw [memory, bits]; exact fits.memory

theorem setCell (fits : p.Fits config) {q : Datapath} {cell : Cell} {word : Nat}
    (lt : word < wordCount p.bits) (bits : q.bits = p.bits)
    (cells : q.cells = p.cells.set cell word) (memory : q.memory = p.memory) : q.Fits config where
  bits := bits.trans fits.bits
  size := by rw [memory]; exact fits.size
  cell other := by
    rw [cells, bits]
    by_cases same : other = cell
    · rw [same, Cells.get_set_self]
      exact lt
    · rw [Cells.get_set_of_ne _ _ same]
      exact fits.cell other
  memory := by rw [memory, bits]; exact fits.memory

theorem setMemory (fits : p.Fits config) {memory : Memory} (size : memory.size = p.memory.size)
    (words : memory.Fits p.bits) : { p with memory := memory }.Fits config where
  bits := fits.bits
  size := size.trans fits.size
  cell := fits.cell
  memory := words

theorem clearMarks (fits : p.Fits config) : p.clearMarks.Fits config := fits.of_eq rfl rfl rfl

theorem reset (fits : p.Fits config) : p.reset.Fits config where
  bits := fits.bits
  size := fits.size
  cell cell := by cases cell <;> exact wordCount_pos _
  memory := fits.memory

theorem readCell (fits : p.Fits config) (cell : Cell) : (p.readCell cell).2.Fits config :=
  fits.of_eq rfl rfl rfl

theorem writeCell (fits : p.Fits config) (cell : Cell) (value : Int) :
    (p.writeCell cell value).Fits config :=
  fits.setCell (wrap_lt p.bits value) rfl rfl rfl

theorem operateCell (fits : p.Fits config) (cell : Cell) (op : Isa.Operation) :
    (p.operateCell cell op).Fits config :=
  fits.setCell (operate_lt op (fits.cell cell)) rfl rfl rfl

theorem evaluate (fits : p.Fits config) (k : Combinator) : (p.evaluate k).2.Fits config :=
  fits.of_eq rfl rfl rfl

theorem readMemory (fits : p.Fits config) {address : Int} {word : Nat} {q : Datapath}
    (h : p.readMemory address = .ok (word, q)) : q.Fits config := by
  unfold Datapath.readMemory at h
  split at h
  · cases h
    exact fits.of_eq rfl rfl rfl
  · cases h

theorem writeMemory (fits : p.Fits config) {address value : Int} {q : Datapath}
    (h : p.writeMemory address value = .ok q) : q.Fits config := by
  unfold Datapath.writeMemory at h
  split at h
  · rename_i memory written
    cases h
    have words := fits.memory.write written (wrap_lt p.bits value)
    exact (fits.setMemory (Memory.size_write written) words).of_eq rfl rfl rfl
  · cases h

theorem loadMemory (fits : p.Fits config) {words : List Int} {address : Int} {q : Datapath}
    (h : p.loadMemory words address = .ok q) : q.Fits config := by
  unfold Datapath.loadMemory at h
  split at h
  · rename_i memory loaded
    cases h
    refine fits.setMemory (Memory.size_load loaded) (Memory.fits_load loaded ?_)
    intro word member
    obtain ⟨value, -, rfl⟩ := List.mem_map.1 member
    exact wrap_lt p.bits value
  · cases h

end Datapath.Fits

/-! ## What micro-steps keep -/

namespace Cpu.Micro

variable {α β : Type}

/-- The processor after a part of a micro-step, whether that faults or not. -/
def after (m : Micro α) (cpu : Cpu) : Cpu :=
  match m.run cpu with
  | .ok _ next => next
  | .error _ next => next

/-- A part of a micro-step keeps a property of processors. -/
def Keeps (I : Cpu → Prop) (m : Micro α) : Prop := ∀ cpu, I cpu → I (m.after cpu)

namespace Keeps

variable {I : Cpu → Prop}

theorem pure (a : α) : Keeps I (Pure.pure a) := fun _ h => h

theorem throw (fault : Fault) : Keeps I (MonadExcept.throw fault : Micro α) := fun _ h => h

theorem get : Keeps I (MonadState.get : Micro Cpu) := fun _ h => h

theorem bind {m : Micro α} {f : α → Micro β} (first : Keeps I m) (rest : ∀ a, Keeps I (f a)) :
    Keeps I (m >>= f) := by
  intro cpu h
  have middle := first cpu h
  unfold after at middle ⊢
  rw [EStateM.run_bind]
  cases ran : m.run cpu with
  | ok a next =>
    rw [ran] at middle
    exact rest a next middle
  | error fault next =>
    rw [ran] at middle
    exact middle

theorem ite {c : Prop} [Decidable c] {m n : Micro α} (yes : Keeps I m) (no : Keeps I n) :
    Keeps I (if c then m else n) := by
  split
  · exact yes
  · exact no

end Keeps

/-- The datapath holds words only. -/
abbrev DatapathFits (config : Config) (cpu : Cpu) : Prop := cpu.datapath.Fits config

variable {config : Config}

theorem keeps_readCell (cell : Cell) : Keeps (DatapathFits config) (readCell cell) :=
  fun _ fits => fits.readCell cell

theorem keeps_writeCell (cell : Cell) (value : Nat) :
    Keeps (DatapathFits config) (writeCell cell value) :=
  fun _ fits => fits.writeCell cell value

theorem keeps_operate (cell : Cell) (op : Isa.Operation) :
    Keeps (DatapathFits config) (operate cell op) :=
  fun _ fits => fits.operateCell cell op

theorem keeps_evaluate (k : Combinator) : Keeps (DatapathFits config) (evaluate k) :=
  fun _ fits => fits.evaluate k

/-- A change that leaves the datapath alone. -/
theorem keeps_modify {f : Cpu → Cpu} (same : ∀ cpu, (f cpu).datapath = cpu.datapath) :
    Keeps (DatapathFits config) (modify f) := by
  intro cpu fits
  exact fits.of_eq (congrArg Datapath.bits (same cpu)) (congrArg Datapath.cells (same cpu))
    (congrArg Datapath.memory (same cpu))

theorem keeps_readMemory (address : Nat) : Keeps (DatapathFits config) (readMemory address) := by
  intro cpu fits
  unfold after EStateM.run readMemory
  cases read : cpu.datapath.readMemory address with
  | ok result => exact fits.readMemory read
  | error fault => exact fits

theorem keeps_writeMemory (address value : Nat) :
    Keeps (DatapathFits config) (writeMemory address value) := by
  intro cpu fits
  unfold after EStateM.run writeMemory
  cases written : cpu.datapath.writeMemory address value with
  | ok datapath => exact fits.writeMemory written
  | error fault => exact fits

theorem keeps_test (target : Isa.Target) : Keeps (DatapathFits config) (test target) := by
  cases target
  case zeroFlag => exact Keeps.get.bind fun _ => .pure _
  case carryFlag => exact Keeps.get.bind fun _ => .pure _
  all_goals exact (keeps_readCell _).bind fun _ => .pure _

theorem keeps_tests (targets : List Isa.Target) :
    Keeps (DatapathFits config) (targets.mapM test) := by
  induction targets with
  | nil => exact .pure _
  | cons target rest ih =>
    rw [List.mapM_cons]
    exact (keeps_test target).bind fun _ => ih.bind fun _ => .pure _

theorem keeps_readSource (source : Isa.Source) :
    Keeps (DatapathFits config) (readSource source) := by
  cases source
  case zero => exact .pure _
  case sum | sub | and | or | xor | stackptrAt => exact keeps_evaluate _
  all_goals exact keeps_readCell _

theorem keeps_fetchStep : Keeps (DatapathFits config) fetchStep := by
  refine (keeps_readCell _).bind fun address => (keeps_readMemory _).bind fun word =>
    (keeps_writeCell _ _).bind fun _ => Keeps.get.bind fun cpu => .ite ?_ ?_
  · exact .bind (keeps_modify fun _ => rfl) fun _ => .pure _
  · cases Isa.kind? word with
    | none => exact .throw _
    | some kind =>
      cases kind with
      | movement =>
        exact .ite (.bind (.throw _) fun _ => .pure _) (.pure _)
      | condition => exact .pure _
      | action => exact .pure _

theorem keeps_conditionStep : Keeps (DatapathFits config) conditionStep := by
  refine (keeps_readCell _).bind fun word => (keeps_tests _).bind fun results => ?_
  exact .ite (.pure _) (.bind (keeps_modify fun _ => rfl) fun _ => .pure _)

theorem keeps_stop (state : MicroState) (control : Isa.Control) :
    Keeps (DatapathFits config) (stop state control) :=
  .bind (keeps_modify fun _ => rfl) fun _ => .pure _

theorem keeps_actionStep : Keeps (DatapathFits config) actionStep := by
  refine (keeps_readCell _).bind fun word => ?_
  cases Isa.action? word with
  | none => exact Keeps.get.bind fun _ => .throw _
  | some action =>
    cases action with
    | register op r => exact (keeps_operate _ _).bind fun _ => .pure _
    | control control =>
      cases control with
      | pop => exact (keeps_operate _ _).bind fun _ => .pure _
      | _ => exact keeps_stop _ _

theorem keeps_readOperand : Keeps (DatapathFits config) readOperand :=
  (keeps_readCell _).bind fun _ => keeps_readMemory _

theorem keeps_bufferFrom (address : Nat) : Keeps (DatapathFits config) (bufferFrom address) :=
  (keeps_readMemory _).bind fun _ => (keeps_writeCell _ _).bind fun _ => .pure _

theorem keeps_movementFetchStep : Keeps (DatapathFits config) movementFetchStep := by
  refine (keeps_readCell _).bind fun word => ?_
  cases Isa.source word
  case memAt | mem => exact (keeps_readCell _).bind fun _ => keeps_bufferFrom _
  case stackAt | stack => exact (keeps_evaluate _).bind fun _ => keeps_bufferFrom _
  all_goals exact .pure _

theorem keeps_movementMoveStep : Keeps (DatapathFits config) movementMoveStep := by
  refine (keeps_readCell _).bind fun word => (keeps_readSource _).bind fun value => ?_
  cases Isa.destination? word with
  | none => exact .pure _
  | some destination =>
    cases destination
    case nul => exact .pure _
    case push =>
      exact (keeps_writeCell _ _).bind fun _ => (keeps_operate _ _).bind fun _ =>
        (keeps_writeCell _ _).bind fun _ => .pure _
    case out => exact .bind (keeps_modify fun _ => rfl) fun _ => .pure _
    all_goals exact (keeps_writeCell _ _).bind fun _ => .pure _

theorem keeps_flushTo (address : Nat) (onStack : Bool) :
    Keeps (DatapathFits config) (flushTo address onStack) :=
  (keeps_readCell _).bind fun _ => (keeps_writeMemory _ _).bind fun _ => .pure _

theorem keeps_movementFlushStep : Keeps (DatapathFits config) movementFlushStep := by
  refine (keeps_readCell _).bind fun word => ?_
  split
  · exact (keeps_readCell _).bind fun _ => keeps_flushTo _ _
  · exact (keeps_readCell _).bind fun _ => keeps_flushTo _ _
  · exact (keeps_evaluate _).bind fun _ => keeps_flushTo _ _

/-- Each micro-step keeps a datapath of words. -/
theorem keeps_step (config : Config) (state : MicroState) :
    Keeps (DatapathFits config) (step state) := by
  cases state with
  | reset =>
    exact (keeps_writeCell _ _).bind fun _ => Keeps.get.bind fun _ =>
      (keeps_writeCell _ _).bind fun _ => .pure _
  | fetch => exact keeps_fetchStep
  | condition => exact keeps_conditionStep
  | action => exact keeps_actionStep
  | done => exact .pure _
  | pause => exact .pure _
  | halted => exact .bind (keeps_modify fun _ => rfl) fun _ => .pure _
  | movement => exact (keeps_readCell _).bind fun _ => .pure _
  | sourceOperandLoad =>
    exact keeps_readOperand.bind fun _ => (keeps_writeCell _ _).bind fun _ =>
      (keeps_readCell _).bind fun _ => .pure _
  | destinationOperandLoad =>
    exact keeps_readOperand.bind fun _ => (keeps_writeCell _ _).bind fun _ => .pure _
  | movementFetch => exact keeps_movementFetchStep
  | movementMove => exact keeps_movementMoveStep
  | movementFlush => exact keeps_movementFlushStep
  | skipTwo | skipOne | sourceOperand | destinationOperand | finish =>
    exact (keeps_operate _ _).bind fun _ => .pure _

end Cpu.Micro

namespace Cpu

section
variable {cpu next : Cpu}

/-- A load that succeeds changes the datapath only. -/
theorem load_eq_ok {words : List Int} (loaded : cpu.load words = .ok next) :
    ∃ datapath, next = { cpu with datapath := datapath } := by
  unfold load at loaded
  cases filled : cpu.datapath.loadMemory words 0 with
  | ok datapath =>
    rw [filled] at loaded
    cases loaded
    exact ⟨datapath, rfl⟩
  | error fault =>
    rw [filled] at loaded
    cases loaded

theorem tick_of_stopped (stopped : cpu.running = false) : cpu.tick = (cpu.clearMarks, []) := by
  unfold tick
  rw [stopped]
  rfl

theorem tick_of_ok {state : MicroState} {messages : List Message} (running : cpu.running = true)
    (ran : (Micro.step cpu.state).run cpu.clearMarks = .ok (state, messages) next) :
    cpu.tick.1 = { next with state := state } := by
  unfold tick
  rw [running, ran]
  rfl

theorem tick_of_error {fault : Fault} (running : cpu.running = true)
    (ran : (Micro.step cpu.state).run cpu.clearMarks = .error fault next) :
    cpu.tick.1 =
      { next with failure := some ⟨cpu.state, fault⟩, running := false, state := .halted } := by
  unfold tick
  rw [running, ran]
  rfl

end

/-- A tick keeps a datapath of words. -/
theorem fits_tick {config : Config} {cpu : Cpu} (fits : cpu.datapath.Fits config) :
    cpu.tick.1.datapath.Fits config := by
  have kept := Micro.keeps_step config cpu.state cpu.clearMarks fits.clearMarks
  unfold Micro.after at kept
  unfold tick
  split
  · exact fits.clearMarks
  · split
    all_goals
      rename_i ran
      rw [ran] at kept
      exact kept

end Cpu

end NineBit.Machine

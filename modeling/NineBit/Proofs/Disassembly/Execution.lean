import NineBit.Proofs.Disassembly.Lines
import NineBit.Proofs.Machine.Stack

/-!
# Execution along a disassembly

A disassembly cuts the memory into instructions without executing any. Execution cuts it in the same
places, as long as no instruction writes the memory, jumps or stops the processor (`Exec.turns`):
the fetches go through the lines one after the other, those that are skipped like those that are
executed, and nothing but an access to memory that is not there can end that earlier
(`Cpu.walks_lines`). So three measures of an instruction agree: the disassembly takes it from the
two locations, a skip from the operand count of the word, and a movement moves the program counter
on wherever it reads an operand (`Exec.Onward`).
-/

namespace NineBit

namespace Machine

/-- A memory cell was asked for that is not there. -/
def Fault.isRange : Fault → Bool
  | .range _ _ => true
  | _ => false

namespace Memory

variable {m : Memory} {address word : Nat}

/-- The words of a memory as a disassembly takes them. -/
def integers (m : Memory) : List Int := m.cells.toList.map fun (w : Nat) => (w : Int)

theorem isRange_of_read_error {fault : Fault} (failed : m.read address = .error fault) :
    fault.isRange = true := by
  rw [read_natCast] at failed
  split at failed
  · cases failed
  · cases failed
    rfl

theorem isRange_of_write_error {fault : Fault} (failed : m.write address word = .error fault) :
    fault.isRange = true := by
  by_cases inside : address < m.size
  · rw [write_of_lt inside] at failed
    cases failed
  · rw [write, cell_natCast, if_neg inside] at failed
    cases failed
    rfl

/-- The word at an address is the first of those from there on. -/
theorem read_of_drop {rest : List Nat} (from_here : m.cells.toList.drop address = word :: rest) :
    m.read address = .ok word := by
  have found : m.cells[address]? = some word := by
    rw [← Array.getElem?_toList, ← List.head?_drop, from_here, List.head?_cons]
  have inside : address < m.size := (Array.getElem?_eq_some_iff.1 found).1
  rw [read_natCast, if_pos inside, Array.getD_eq_getD_getElem?, found, Option.getD_some]

end Memory

/-! ## Instructions that go straight on -/

/-- An access to memory that is not there has stopped the machine. -/
def Architecture.OutOfRange (x : Architecture) : Prop :=
  x.stopped = some .halted ∧ ∃ fault, x.fault = some fault ∧ fault.isRange = true

/-- The instruction writes the memory, jumps or stops the processor. -/
def Exec.turns : Isa.Opcode → Bool
  | .movement _ destination => flushed destination || destination == .pc
  | .action (.control c) => c != .pop
  | _ => false

namespace Exec

/-- What a part of an instruction leaves behind: no other fault, and unless the instruction turns,
    the same memory and a machine that is still running if it was, with the program counter so many
    words further. -/
structure Onward (turning : Bool) (count : Nat) (x y : Architecture) : Prop where
  bits : y.bits = x.bits
  fault : y.fault = x.fault
  memory : turning = false → y.memory = x.memory
  stopped : turning = false → y.stopped = x.stopped
  pc : turning = false → y.pc % wordCount x.bits = (x.pc + count) % wordCount x.bits

section
variable {turning : Bool} {m n : Nat} {x y z : Architecture}

theorem Onward.of_eq (bits : y.bits = x.bits) (fault : y.fault = x.fault)
    (memory : y.memory = x.memory) (stopped : y.stopped = x.stopped) (pc : y.pc = x.pc) :
    Onward turning 0 x y :=
  ⟨bits, fault, fun _ => memory, fun _ => stopped, fun _ => congrArg (· % wordCount x.bits) pc⟩

theorem Onward.refl (x : Architecture) : Onward turning 0 x x := .of_eq rfl rfl rfl rfl rfl

theorem Onward.of_turning (bits : y.bits = x.bits) (fault : y.fault = x.fault) :
    Onward true m x y :=
  ⟨bits, fault, nofun, nofun, nofun⟩

theorem Onward.trans (first : Onward turning m x y) (second : Onward turning n y z) :
    Onward turning (m + n) x z where
  bits := second.bits.trans first.bits
  fault := second.fault.trans first.fault
  memory straight := (second.memory straight).trans (first.memory straight)
  stopped straight := (second.stopped straight).trans (first.stopped straight)
  pc straight := by
    have later := second.pc straight
    rw [first.bits, ← Nat.mod_add_mod, first.pc straight, Nat.mod_add_mod, Nat.add_assoc] at later
    exact later

end

/-- A part of an instruction goes on so, or meets memory that is not there. -/
def Follows {α : Type} (turning : Bool) (count : Nat) (e : Exec α) : Prop :=
  ∀ x, match e.run x with
    | .ok _ y => Onward turning count x y
    | .error fault _ => fault.isRange = true

namespace Follows

variable {α β : Type} {turning : Bool} {count : Nat}

theorem pure (a : α) : Follows turning 0 (Pure.pure a) := fun x => .refl x

theorem get : Follows turning 0 (MonadState.get : Exec Architecture) := fun x => .refl x

theorem modify {f : Architecture → Architecture} (goes : ∀ x, Onward turning count x (f x)) :
    Follows turning count (modify f) := goes

theorem compute (value : Architecture → Int) : Follows turning 0 (compute value) :=
  fun _ => .of_eq rfl rfl rfl rfl rfl

theorem advance (count : Nat) : Follows turning count (advance count) :=
  fun _ => ⟨rfl, rfl, fun _ => rfl, fun _ => rfl, fun _ => Nat.mod_mod _ _⟩

theorem bind {m n : Nat} {e : Exec α} {f : α → Exec β} (first : Follows turning m e)
    (rest : ∀ a, Follows turning n (f a)) : Follows turning (m + n) (e >>= f) := by
  intro x
  have before := first x
  rw [EStateM.run_bind]
  cases ran : e.run x with
  | ok a y =>
    rw [ran] at before
    have after := rest a y
    simp only at before after ⊢
    cases went : (f a).run y with
    | ok b z =>
      rw [went] at after
      exact before.trans after
    | error fault z =>
      rw [went] at after
      exact after
  | error fault y =>
    rw [ran] at before
    exact before

/-- A part that does not move the program counter, and the rest. -/
theorem andThen {e : Exec α} {f : α → Exec β} (first : Follows turning 0 e)
    (rest : ∀ a, Follows turning count (f a)) : Follows turning count (e >>= f) :=
  Nat.zero_add count ▸ first.bind rest

theorem load (address : Nat) : Follows turning 0 (load address) := by
  intro x
  cases read : x.memory.read address with
  | ok word =>
    rw [run_load_ok read]
    exact .refl x
  | error fault =>
    rw [run_load_error read]
    exact Memory.isRange_of_read_error read

theorem store (address word : Nat) : Follows true 0 (store address word) := by
  intro x
  cases written : x.memory.write address word with
  | ok memory =>
    rw [run_store_ok written]
    exact .of_turning rfl rfl
  | error fault =>
    rw [run_store_error written]
    exact Memory.isRange_of_write_error written

theorem result {e : Exec α} (follows : Follows turning count e) (x : Architecture) :
    (e.result x).OutOfRange ∨ Onward turning count x (e.result x) := by
  have goes := follows x
  unfold Exec.result
  cases ran : e.run x with
  | ok a y =>
    rw [ran] at goes
    exact .inr goes
  | error fault y =>
    rw [ran] at goes
    exact .inl ⟨rfl, fault, rfl, goes⟩

end Follows

theorem follows_value {turning : Bool} (source : Isa.Source) :
    Follows turning 0 (value source) := by
  cases source
  case zero => exact .pure _
  case memAt | mem => exact .andThen .get fun _ => .load _
  case stackAt | stack => exact .andThen (.compute _) fun _ => .load _
  case a | b | c | d | literal => exact .andThen .get fun _ => .pure _
  all_goals exact .compute _

theorem follows_deliver (word : Nat) {destination : Isa.Destination} (stays : destination ≠ .pc) :
    Follows (flushed destination) 0 (deliver word destination) := by
  cases destination
  case nul => exact .pure _
  case memAt | mem => exact .andThen .get fun _ => .store _ _
  case stackAt | stack => exact .andThen (.compute _) fun _ => .store _ _
  case push =>
    exact .andThen (.modify fun _ => .of_turning rfl rfl) fun _ =>
      .andThen (.compute _) fun _ => .store _ _
  case pc => exact absurd rfl stays
  all_goals exact .modify fun _ => .of_eq rfl rfl rfl rfl rfl

theorem follows_move (source : Isa.Source) (destination : Isa.Destination) :
    Follows (turns (.movement source destination)) 1 (move source destination) := by
  refine .andThen (follows_value source) fun word => ?_
  by_cases jump : destination = .pc
  · subst jump
    exact fun _ => .of_turning rfl rfl
  · have straight : turns (.movement source destination) = flushed destination := by
      simp [turns, jump]
    rw [straight]
    unfold put
    rw [if_neg jump]
    exact .andThen (follows_deliver word jump) fun _ => .advance 1

section
variable {turning : Bool}

theorem follows_operandM : Follows turning 0 operandM :=
  .andThen .get fun _ => .andThen (.load _) fun _ => .modify fun _ => .of_eq rfl rfl rfl rfl rfl

theorem follows_operandN : Follows turning 0 operandN :=
  .andThen .get fun _ => .andThen (.load _) fun _ => .modify fun _ => .of_eq rfl rfl rfl rfl rfl

end

/-- A movement moves the program counter on over itself and each of its operands. -/
theorem follows_movement (source : Isa.Source) (destination : Isa.Destination) :
    Follows (turns (.movement source destination)) (1 + Disassembly.operands source destination)
      (movement source destination) := by
  have rest : Follows (turns (.movement source destination))
      ((if destination.takesWord then 1 else 0) + 1) (moveFromN source destination) := by
    cases takes : destination.takesWord with
    | true =>
      rw [moveFromN_of_word takes]
      exact .bind (.advance 1) fun _ => .andThen follows_operandN fun _ => follows_move _ _
    | false =>
      rw [moveFromN_of_not takes]
      exact follows_move _ _
  unfold Disassembly.operands
  rw [Nat.add_comm, Nat.add_assoc]
  cases takes : source.takesWord with
  | true =>
    rw [movement_of_word takes]
    exact .bind (.advance 1) fun _ => .andThen follows_operandM fun _ => rest
  | false =>
    rw [movement_of_not takes, if_neg Bool.false_ne_true, Nat.zero_add]
    exact rest

/-- An instruction moves the program counter on by the words that are counted of it. -/
theorem follows_execute {word : Nat} {opcode : Isa.Opcode}
    (decoded : Isa.Opcode.ofWord? word = some opcode) :
    Follows (turns opcode) (1 + Isa.operandCount word) (execute opcode) := by
  cases opcode with
  | movement source destination =>
    rw [Disassembly.operandCount_movement decoded]
    exact follows_movement source destination
  | condition c =>
    obtain ⟨kind, -⟩ := Isa.ofWord?_eq_condition.1 decoded
    rw [Disassembly.operandCount_of_kind? kind (by decide)]
    exact .andThen (.modify fun _ => .of_eq rfl rfl rfl rfl rfl) fun _ => .advance 1
  | action x =>
    obtain ⟨kind, -⟩ := Isa.ofWord?_eq_action.1 decoded
    rw [Disassembly.operandCount_of_kind? kind (by decide)]
    cases x with
    | register op r =>
      refine .andThen (.modify fun _ => ?_) fun _ => .advance 1
      cases r <;> exact .of_eq rfl rfl rfl rfl rfl
    | control c =>
      cases c with
      | pop => exact .andThen (.modify fun _ => .of_eq rfl rfl rfl rfl rfl) fun _ => .advance 1
      | done | pause | halt => exact .modify fun _ => .of_turning rfl rfl

/-- So does an instruction that is skipped, which is only measured. -/
theorem step_onward {x : Architecture} {word : Nat} {opcode : Isa.Opcode}
    (read : x.memory.read x.pc = .ok word) (decoded : Isa.Opcode.ofWord? word = some opcode) :
    (step.result x).OutOfRange ∨
      Onward (turns opcode) (1 + Isa.operandCount word) x (step.result x) := by
  cases skip : x.skip with
  | true =>
    rw [step_of_skip read skip]
    exact .inr ⟨rfl, rfl, fun _ => rfl, fun _ => rfl, fun _ => Nat.mod_mod _ _⟩
  | false =>
    rw [step_of_opcode read skip decoded]
    exact (follows_execute decoded).result x

end Exec

namespace Cpu

/-! ## Ticks of one instruction -/

/-- An access to memory that is not there has stopped the processor. -/
structure OutOfRange (cpu : Cpu) : Prop where
  stopped : cpu.running = false
  halted : cpu.state = .halted
  failed : ∃ failure, cpu.failure = some failure ∧ failure.fault.isRange = true

/-- Some ticks fetch the instructions at some addresses one after the other, or the first of them
    before an access to memory that is not there; no other fault arises. -/
structure Walks (cpu : Cpu) (addresses : List Int) (n : Nat) : Prop where
  fetched : cpu.atFetches (fun now => (now.pc : Int)) n = addresses ∨
    (cpu.ticks n).OutOfRange ∧ cpu.atFetches (fun now => (now.pc : Int)) n <+: addresses
  faults : ∀ j < n, ∀ fault, (cpu.ticks j).FaultsWith fault → fault.isRange = true

variable {cpu : Cpu} {config : Config}

theorem outOfRange_of_architecture (seen : cpu.architecture.OutOfRange) : cpu.OutOfRange := by
  obtain ⟨stopped, fault, failed, range⟩ := seen
  simp only [architecture] at stopped failed
  split at stopped
  · cases stopped
  · rename_i still
    obtain ⟨failure, found, rfl⟩ := Option.map_eq_some_iff.1 failed
    exact ⟨Bool.eq_false_iff.2 still, Option.some.inj stopped, failure, found, range⟩

/-- The fault of an instruction arises in its last tick. -/
theorem Completes.fault_eq {n j : Nat} {fault : Fault} (completes : cpu.Completes n) (lt : j < n)
    (faults : (cpu.ticks j).FaultsWith fault) : (cpu.ticks n).architecture.fault = some fault := by
  obtain ⟨failed, -, stopped⟩ := faults.stops
  rw [← ticks_succ] at failed stopped
  have last : j + 1 = n := by
    by_contra earlier
    exact completes.first (j + 1) (Nat.succ_pos j) (by omega) (.inr stopped)
  rw [last] at failed
  simp [architecture, failed]

/-- The ticks that take a processor over one instruction of so many words. They fetch nothing else,
    and unless the instruction turns or asks for memory that is not there, the processor is then
    about to fetch behind it. -/
structure WalksOver (cpu : Cpu) (turning : Bool) (size n : Nat) : Prop where
  fetched : cpu.atFetches (fun now => (now.pc : Int)) n = [(cpu.pc : Int)]
  faults : ∀ j < n, ∀ fault, (cpu.ticks j).FaultsWith fault → fault.isRange = true
  ends : (cpu.ticks n).OutOfRange ∨
    (cpu.ticks n).failure = none ∧ (turning = false →
      (cpu.ticks n).running = true ∧ (cpu.ticks n).state = .fetch ∧
        (cpu.ticks n).datapath.memory = cpu.datapath.memory ∧
        (cpu.pc + size < wordCount cpu.datapath.bits → (cpu.ticks n).pc = cpu.pc + size))

/-- Executed or skipped, an instruction is walked over. -/
theorem walksOver_instruction {word : Nat} {opcode : Isa.Opcode} (fits : cpu.datapath.Fits config)
    (running : cpu.running = true) (state : cpu.state = .fetch) (clean : cpu.failure = none)
    (read : cpu.datapath.memory.read cpu.pc = .ok word)
    (decoded : Isa.Opcode.ofWord? word = some opcode) :
    ∃ n, cpu.WalksOver (Exec.turns opcode) (1 + Isa.operandCount word) n := by
  obtain ⟨n, -, completes, same⟩ := completes_step running state fits
  have nothing : cpu.architecture.fault = none := by simp [architecture, clean]
  have goes := Exec.step_onward (x := cpu.architecture) read decoded
  rw [← same] at goes
  refine ⟨n, completes.atFetches running state, fun j lt fault faults => ?_, ?_⟩
  · have arisen := completes.fault_eq lt faults
    rcases goes with ⟨-, other, other_arisen, range⟩ | onward
    · rw [arisen] at other_arisen
      cases other_arisen
      exact range
    · rw [onward.fault, nothing] at arisen
      cases arisen
  · refine goes.imp outOfRange_of_architecture fun onward => ⟨?_, fun straight => ?_⟩
    · have none_left := onward.fault.trans nothing
      simpa [architecture] using none_left
    · have awake : (cpu.ticks n).running = true := by
        rw [← architecture_stopped, onward.stopped straight, architecture_stopped, running]
      refine ⟨awake, completes.settled.resolve_right (by rw [awake]; decide),
        onward.memory straight, fun lt => ?_⟩
      have pc : (cpu.ticks n).pc % wordCount cpu.datapath.bits =
        (cpu.pc + (1 + Isa.operandCount word)) % wordCount cpu.datapath.bits := onward.pc straight
      have small : (cpu.ticks n).pc < wordCount cpu.datapath.bits := by
        have bits : (cpu.ticks n).datapath.bits = cpu.datapath.bits := onward.bits
        rw [← bits]
        exact (fits_ticks fits n).cell .pc
      rwa [Nat.mod_eq_of_lt small, Nat.mod_eq_of_lt lt] at pc

end Cpu

end Machine

/-! ## Lines one after the other -/

namespace Disassembly

/-- The instruction that a line shows writes the memory, jumps or stops the processor. -/
def Line.turns (line : Line) : Bool :=
  (Isa.Opcode.ofWord? (Isa.low (line.words.headD 0))).any Machine.Exec.turns

/-- The first line from an address on shows the instruction there, and the others are the lines from
    behind that instruction on. -/
theorem front_of_linesOf {symbols : SymbolTable} {address : Nat} {m : Machine.Memory} {line : Line}
    {rest : List Line}
    (front : line :: rest <+: linesOf symbols address none (m.integers.drop address))
    (shown : line.isData = false) (whole : line.isCut = false) :
    ∃ word opcode, m.read address = .ok word ∧ Isa.Opcode.ofWord? word = some opcode ∧
      line.address = address ∧ line.turns = Machine.Exec.turns opcode ∧
      rest <+: linesOf symbols (address + (1 + Isa.operandCount word) : Nat) none
        (m.integers.drop (address + (1 + Isa.operandCount word))) := by
  have words : m.integers.drop address =
      (m.cells.toList.drop address).map fun (w : Nat) => (w : Int) := List.map_drop.symm
  have behind (count : Nat) :
      m.integers.drop (address + (1 + count)) = ((m.integers.drop address).drop 1).drop count := by
    rw [List.drop_drop, List.drop_drop]
  rw [words] at front behind
  cases from_here : m.cells.toList.drop address with
  | nil =>
    rw [from_here, List.map_nil, linesOf] at front
    cases List.prefix_nil.1 front
  | cons word tail =>
    rw [from_here, List.map_cons, linesOf, if_neg (by simp)] at front
    rw [from_here, List.map_cons, List.drop_one, List.tail_cons] at behind
    obtain ⟨rfl, later⟩ := List.cons_prefix_cons.1 front
    obtain ⟨opcode, read, enough⟩ := lineOf_shows shown whole
    obtain ⟨comment, same⟩ : ∃ comment, lineOf symbols address word _ = _ :=
      lineOf_instruction read enough
    have decoded := (Option.filter_eq_some_iff.1 read).1
    have size : (lineOf symbols address word (tail.map fun (w : Nat) => (w : Int))).size =
        1 + Isa.operandCount word := by
      rw [same, Line.size, List.length_cons, List.length_take_of_le enough, Isa.low_natCast,
        Isa.operandCount_mod, Nat.add_comm]
    rw [size, Nat.add_sub_cancel_left, ← behind] at later
    refine ⟨word, opcode, Machine.Memory.read_of_drop from_here, ?_, ?_, ?_, later⟩
    · rwa [Isa.low_natCast, Isa.ofWord?_mod] at decoded
    · rw [same]
    · rw [same, Line.turns, List.headD_cons, decoded, Option.any_some]

end Disassembly

namespace Machine.Cpu

open Disassembly (Line)

variable {cpu : Cpu} {config : Config} {symbols : SymbolTable}

/-- Ticks that go on behind an instruction. -/
theorem WalksOver.walks {turning : Bool} {size n m : Nat} {addresses : List Int}
    (walked : cpu.WalksOver turning size n) (later : (cpu.ticks n).Walks addresses m) :
    cpu.Walks ((cpu.pc : Int) :: addresses) (n + m) where
  fetched := by
    rw [atFetches_add, ticks_add, walked.fetched, List.singleton_append]
    refine later.fetched.imp (congrArg _) fun ⟨stopped, front⟩ => ⟨stopped, ?_⟩
    exact List.cons_prefix_cons.2 ⟨rfl, front⟩
  faults j lt fault faults := by
    by_cases first : j < n
    · exact walked.faults j first fault faults
    · obtain ⟨k, rfl⟩ := Nat.exists_eq_add_of_le (Nat.not_lt.1 first)
      rw [ticks_add] at faults
      exact later.faults k (by omega) fault faults

/-- Execution walks along lines none of which turns but the last. -/
theorem walks_linesOf {shown : List Line} :
    ∀ {cpu : Cpu}, cpu.datapath.Fits config → cpu.running = true → cpu.state = .fetch →
      cpu.failure = none →
      shown <+: Disassembly.linesOf symbols cpu.pc none (cpu.datapath.memory.integers.drop cpu.pc) →
      (∀ line ∈ shown, line.isData = false ∧ line.isCut = false) →
      (∀ line ∈ shown.dropLast, line.turns = false) →
      ∃ n, cpu.Walks (shown.map Line.address) n := by
  induction shown with
  | nil => exact fun _ _ _ _ _ _ _ => ⟨0, .inl rfl, fun _ lt => absurd lt (Nat.not_lt_zero _)⟩
  | cons line rest ih =>
    intro cpu fits running state clean front instructions straight
    obtain ⟨shown, whole⟩ := instructions line List.mem_cons_self
    obtain ⟨word, opcode, read, decoded, address, turns, behind⟩ :=
      Disassembly.front_of_linesOf front shown whole
    obtain ⟨n, walked⟩ := walksOver_instruction fits running state clean read decoded
    rw [List.map_cons, address]
    rcases walked.ends with stopped | ⟨clean, goes⟩
    · refine ⟨n, .inr ⟨stopped, ?_⟩, walked.faults⟩
      rw [walked.fetched]
      exact List.cons_prefix_cons.2 ⟨rfl, List.nil_prefix⟩
    · cases rest with
      | nil => exact ⟨n, .inl walked.fetched, walked.faults⟩
      | cons next others =>
        have onward := straight line List.mem_cons_self
        have later (shown : Line) (member : shown ∈ next :: others) :=
          instructions shown (List.mem_cons_of_mem _ member)
        obtain ⟨awake, fetch, memory, pc⟩ := goes (turns.symm.trans onward)
        -- There is a next line, so the next word is in memory and the program counter has not
        -- begun anew.
        obtain ⟨_, _, found, -⟩ := Disassembly.front_of_linesOf behind
          (later next List.mem_cons_self).1 (later next List.mem_cons_self).2
        have inside := Memory.lt_of_read found
        rw [fits.size] at inside
        have place := pc (fits.bits ▸ Nat.lt_of_lt_of_le inside config.memorySize_le)
        obtain ⟨m, walks⟩ := ih (fits_ticks fits n) awake fetch clean (by rwa [memory, place])
          later fun line member => straight line (List.mem_cons_of_mem _ member)
        exact ⟨n + m, walked.walks walks⟩

/-- Execution follows the disassembly. A running processor fetches at the addresses of the lines
    from its program counter on, one after the other, or is stopped before by an access to memory
    that is not there; no other fault arises. The lines may show any instructions, as long as
    none but the last writes the memory, jumps or stops the processor, and whether an instruction is
    skipped does not matter. Nor does what the cells and flags hold; that no failure is recorded
    is so of every running processor (`Consistent.failure_eq_none`). -/
theorem walks_lines {all shown : List Line} (fits : cpu.datapath.Fits config)
    (running : cpu.running = true) (state : cpu.state = .fetch) (clean : cpu.failure = none)
    (lines : Disassembly.lines symbols cpu.datapath.memory.integers cpu.pc none = .ok all)
    (front : shown <+: all)
    (instructions : ∀ line ∈ shown, line.isData = false ∧ line.isCut = false)
    (straight : ∀ line ∈ shown.dropLast, line.turns = false) :
    ∃ n, cpu.Walks (shown.map Line.address) n := by
  unfold Disassembly.lines Disassembly.linesAt at lines
  rw [dif_neg (by omega)] at lines
  cases lines
  exact walks_linesOf fits running state clean front instructions straight

/-- A machine with four words. -/
def fourWords : Config :=
  { Config.standard with
    memorySize := 4
    memorySize_pos := by decide
    memorySize_le := by decide }

/-- A condition that is not met, a movement with a literal that is therefore skipped, and a stop. -/
theorem walks_lines_skipped : ∃ cpu, (Cpu.initial fourWords).load [164, 502, 7, 66] = .ok cpu ∧
    ∃ n, cpu.reset.tick.1.Walks [0, 1, 3] n := by
  have words : ((Cpu.initial fourWords).load [164, 502, 7, 66]).toOption.map (fun cpu =>
      cpu.reset.tick.1.datapath.memory.integers) = some [164, 502, 7, 66] := by decide +kernel
  have lines : Disassembly.lines [] [164, 502, 7, 66] (0 : Nat) none =
      .ok [⟨0, [164], "?!a", ""⟩, ⟨1, [502, 7], "a = 7", ""⟩, ⟨3, [66], "!done", ""⟩] := by
    decide +kernel
  cases loaded : (Cpu.initial fourWords).load [164, 502, 7, 66] with
  | error fault =>
    rw [loaded] at words
    cases words
  | ok cpu =>
    rw [loaded] at words
    rw [← Option.some.inj words] at lines
    exact ⟨cpu, rfl, walks_lines (Reachable.tick (.reset (.load .initial loaded))).fits rfl rfl rfl
      lines (List.prefix_refl _) (by decide +kernel) (by decide +kernel)⟩

end Machine.Cpu

end NineBit

import NineBit.Proofs.Machine.Consistency

/-!
# Restarts

A reset sets back whatever the micro-steps read: a processor that has been reset behaves like one
that was just built and holds the same memory, whatever had happened to it (`Cpu.reset_recovers`).
All that a reset leaves behind are the marks of the last tick, and the next tick clears those before
it does anything else. So processors that differ in their marks only (`Cpu.Alike`) answer every
request alike, and after a tick they do not differ at all.
-/

namespace NineBit.Machine

/-! ## Memories that are copied -/

namespace Memory

/-- The words that have been put into a row of cells stand between those that were there. -/
theorem toList_fill (words : List Nat) : ∀ (cells : Array Nat) (i : Nat),
    i + words.length ≤ cells.size →
    (fill cells i words).toList =
      cells.toList.take i ++ words ++ cells.toList.drop (i + words.length) := by
  induction words with
  | nil =>
    intro cells i _
    rw [fill, List.append_nil, List.length_nil, Nat.add_zero, List.take_append_drop]
  | cons word rest ih =>
    intro cells i le
    rw [List.length_cons] at le
    rw [fill, ih _ _ (by rw [Array.size_setIfInBounds]; omega), Array.toList_setIfInBounds,
      List.take_set, List.drop_set_of_lt (by omega)]
    have here : i < (cells.toList.take (i + 1)).length := by
      rw [List.length_take, Array.length_toList]
      omega
    rw [List.set_eq_take_append_cons_drop, if_pos here]
    simp [List.take_take, Nat.add_assoc, Nat.add_comm 1]

/-- A memory into which all the words of another one of its size are loaded becomes that one. -/
theorem load_cells {m other : Memory} (size : m.size = other.size) :
    m.load other.cells.toList 0 = .ok other := by
  have all : other.cells.toList.length = m.size := by
    rw [Array.length_toList]
    exact size.symm
  have filled : (⟨fill (zeros m.size).cells 0 other.cells.toList⟩ : Memory) = other := by
    have zeros_length : (zeros m.size).cells.size = m.size := size_zeros m.size
    have words := toList_fill other.cells.toList (zeros m.size).cells 0 (by omega)
    rw [List.take_zero, List.nil_append, List.drop_of_length_le, List.append_nil] at words
    · exact congrArg Memory.mk (Array.toList_inj.1 words)
    · rw [Array.length_toList]
      omega
  unfold load
  cases given : other.cells.toList with
  | nil =>
    rw [given] at filled
    exact congrArg Except.ok filled
  | cons word rest =>
    rw [given] at filled all
    have length : (word :: rest).length = rest.length + 1 := rfl
    have first : m.cell 0 = .ok 0 := if_pos (by omega)
    have last : m.cell (0 + (word :: rest).length - 1) = .ok rest.length := by
      rw [length, cell, if_pos (by omega)]
      congr 1
      omega
    rw [first, last]
    exact congrArg Except.ok filled

end Memory

namespace Cpu

/-! ## What can be seen of a processor -/

/-- What can be asked of a processor. -/
inductive Request where
  | tick
  | reset
  | resume
  | load (words : List Int)
  | write (address value : Int)

/-- What is seen of a processor when a request has been met. A tick tells its messages, the marks on
    the parts that it has touched and the memory cell that it has touched last; a resumption tells
    whether the processor goes on, loads and writes why they have failed. -/
inductive Answer where
  | ticked (messages : List Message) (marks : List (String × Mark)) (address : Option Nat)
  | reset
  | resumed (going : Bool)
  | loaded (fault : Option Fault)
  | written (fault : Option Fault)

/-- What can be seen of a processor at any time. -/
structure View where
  state : MicroState
  running : Bool
  skip : Bool
  /-- The words of the cells and of the combinators. -/
  values : List (String × Nat)
  zero : Bool
  carry : Bool
  memory : Memory
  outputs : List Nat
  failure : Option Failure

/-- What is seen of a processor between its ticks. -/
def view (cpu : Cpu) : View where
  state := cpu.state
  running := cpu.running
  skip := cpu.skip
  values := cpu.datapath.values
  zero := cpu.datapath.zero
  carry := cpu.datapath.carry
  memory := cpu.datapath.memory
  outputs := cpu.outputs.toList
  failure := cpu.failure

/-- What becomes of a processor by a request, and what is answered. -/
def meet (cpu : Cpu) : Request → Cpu × Answer
  | .tick =>
    let (next, messages) := cpu.tick
    (next, .ticked messages next.datapath.marks next.datapath.lastAddress)
  | .reset => (cpu.reset, .reset)
  | .resume => (cpu.resume, .resumed cpu.resumable)
  | .load words =>
    match cpu.load words with
    | .ok next => (next, .loaded none)
    | .error fault => (cpu, .loaded (some fault))
  | .write address value =>
    match cpu.datapath.writeMemory address value with
    | .ok datapath => ({ cpu with datapath := datapath }, .written none)
    | .error fault => (cpu, .written (some fault))

/-- All that is seen of a processor while it meets requests. -/
def observe (cpu : Cpu) : List Request → List (Answer × View)
  | [] => []
  | request :: rest =>
    let (next, answer) := cpu.meet request
    (answer, next.view) :: next.observe rest

/-- A processor that was just built, and whose memory has been filled. -/
inductive Built (config : Config) : Cpu → Prop where
  | initial : Built config (.initial config)
  | load {cpu next : Cpu} {words : List Int} :
      Built config cpu → cpu.load words = .ok next → Built config next
  | write {cpu : Cpu} {datapath : Datapath} {address value : Int} :
      Built config cpu → cpu.datapath.writeMemory address value = .ok datapath →
        Built config { cpu with datapath := datapath }

/-- The processors differ in their marks only. -/
def Alike (cpu other : Cpu) : Prop := cpu.clearMarks = other.clearMarks

variable {config : Config} {cpu other next : Cpu}

/-! ## Marks -/

theorem tick_clearMarks (cpu : Cpu) : cpu.clearMarks.tick = cpu.tick := rfl

/-- No request is answered by the marks, and what it makes of a processor differs in marks only when
    the processor does. -/
theorem meet_clearMarks (cpu : Cpu) (request : Request) :
    (cpu.clearMarks.meet request).2 = (cpu.meet request).2 ∧
      (cpu.clearMarks.meet request).1.Alike (cpu.meet request).1 := by
  cases request with
  | tick => exact ⟨rfl, rfl⟩
  | reset => exact ⟨rfl, rfl⟩
  | resume =>
    refine ⟨rfl, ?_⟩
    show cpu.clearMarks.resume.Alike cpu.resume
    have same : cpu.clearMarks.resumable = cpu.resumable := rfl
    unfold Cpu.resume
    rw [same]
    split <;> rfl
  | load words =>
    unfold meet load Datapath.loadMemory
    show _ ∧ _
    dsimp only [clearMarks, Datapath.clearMarks]
    cases cpu.datapath.memory.load (words.map (wrap cpu.datapath.bits)) 0 with
    | ok memory => exact ⟨rfl, rfl⟩
    | error fault => exact ⟨rfl, rfl⟩
  | write address value =>
    unfold meet Datapath.writeMemory
    dsimp only [clearMarks, Datapath.clearMarks]
    cases cpu.datapath.memory.write address (wrap cpu.datapath.bits value) with
    | ok memory => exact ⟨rfl, rfl⟩
    | error fault => exact ⟨rfl, rfl⟩

/-- Processors that differ in their marks only answer alike, and differ in no more afterwards. -/
theorem Alike.meet (alike : cpu.Alike other) (request : Request) :
    (cpu.meet request).2 = (other.meet request).2 ∧
      (cpu.meet request).1.Alike (other.meet request).1 := by
  obtain ⟨answer, left⟩ := cpu.meet_clearMarks request
  obtain ⟨answer', left'⟩ := other.meet_clearMarks request
  rw [alike] at answer left
  exact ⟨answer.symm.trans answer', left.symm.trans left'⟩

theorem Alike.view (alike : cpu.Alike other) : cpu.view = other.view := by
  show cpu.clearMarks.view = other.clearMarks.view
  rw [alike]

/-- A tick clears the marks first. -/
theorem Alike.tick (alike : cpu.Alike other) : cpu.tick = other.tick := by
  rw [← cpu.tick_clearMarks, ← other.tick_clearMarks, alike]

theorem Alike.observe {requests : List Request} (alike : cpu.Alike other) :
    cpu.observe requests = other.observe requests := by
  induction requests generalizing cpu other with
  | nil => rfl
  | cons request rest ih =>
    obtain ⟨answer, next⟩ := alike.meet request
    rw [Cpu.observe, Cpu.observe]
    dsimp only
    rw [answer, next.view, ih next]

/-! ## Resets -/

theorem Built.reachable (built : cpu.Built config) : cpu.Reachable config := by
  induction built with
  | initial => exact .initial
  | load _ loaded ih => exact .load ih loaded
  | write _ written ih => exact .write ih written

/-- A reset leaves the width of the words, the memory and the marks. -/
theorem alike_reset (bits : cpu.datapath.bits = other.datapath.bits)
    (memory : cpu.datapath.memory = other.datapath.memory) : cpu.reset.Alike other.reset := by
  unfold Alike reset clearMarks Datapath.reset Datapath.clearMarks
  dsimp only
  rw [bits, memory]

/-- The memory of any processor can be loaded into one that was just built. -/
theorem exists_built (fits : cpu.datapath.Fits config) :
    ∃ built, Built config built ∧ built.datapath.memory = cpu.datapath.memory := by
  have wrapped : (cpu.datapath.memory.cells.toList.map fun (w : Nat) => (w : Int)).map
      (wrap config.wordBits) = cpu.datapath.memory.cells.toList := by
    rw [List.map_map]
    refine (List.map_congr_left fun word member => ?_).trans (List.map_id _)
    have lt := fits.memory word (Array.mem_toList_iff.1 member)
    rw [fits.bits] at lt
    exact wrap_of_lt lt
  have size : (Memory.zeros config.memorySize).size = cpu.datapath.memory.size := by
    rw [Memory.size_zeros, fits.size]
  have loaded : (Cpu.initial config).load
      (cpu.datapath.memory.cells.toList.map fun (w : Nat) => (w : Int)) =
        .ok { Cpu.initial config with
          datapath := { Datapath.initial config.wordBits config.memorySize with
            memory := cpu.datapath.memory } } := by
    unfold load Datapath.loadMemory
    dsimp only [Cpu.initial, Datapath.initial]
    rw [wrapped, Memory.load_cells size]
    rfl
  exact ⟨_, .load .initial loaded, rfl⟩

/-- Whatever had happened to a processor, once it is reset nothing that is asked of it tells it from
    one that was just built, holds the same memory and has been reset; and the first tick leaves no
    difference between them at all. -/
theorem reset_recovers (reachable : cpu.Reachable config) :
    (∃ built, Built config built ∧ built.datapath.memory = cpu.datapath.memory) ∧
      ∀ built, Built config built → built.datapath.memory = cpu.datapath.memory →
        cpu.reset.view = built.reset.view ∧
        (∀ requests, cpu.reset.observe requests = built.reset.observe requests) ∧
        cpu.reset.tick = built.reset.tick := by
  refine ⟨exists_built reachable.fits, fun built begun memory => ?_⟩
  have bits : cpu.datapath.bits = built.datapath.bits :=
    reachable.fits.bits.trans begun.reachable.fits.bits.symm
  have alike := alike_reset bits memory.symm
  exact ⟨alike.view, fun requests => alike.observe, alike.tick⟩

/-- A processor that has stopped at a word that is no instruction: its reset leaves the marks of the
    fetch, and nothing that is asked of it shows them. -/
theorem reset_recovers_fault : ∃ cpu, (Cpu.initial .standard).load [0] = .ok cpu ∧
    let stopped := cpu.reset.tick.1.tick.1
    stopped.failure.isSome = true ∧ stopped.reset.datapath.marks ≠ cpu.reset.datapath.marks ∧
      ∀ requests, stopped.reset.observe requests = cpu.reset.observe requests := by
  have runs : ((Cpu.initial .standard).load [0]).toOption.map (fun cpu =>
      let stopped := cpu.reset.tick.1.tick.1
      stopped.failure.isSome &&
        decide (stopped.reset.datapath.marks ≠ cpu.reset.datapath.marks) &&
        cpu.datapath.memory.cells.toList == stopped.datapath.memory.cells.toList) =
      some true := by decide +kernel
  cases loaded : (Cpu.initial .standard).load [0] with
  | error fault =>
    rw [loaded] at runs
    cases runs
  | ok cpu =>
    rw [loaded] at runs
    have all := Option.some.inj runs
    simp only [Bool.and_eq_true, decide_eq_true_eq, beq_iff_eq] at all
    obtain ⟨⟨failed, marks⟩, words⟩ := all
    have started : cpu.Reachable .standard := .load .initial loaded
    have same := (reset_recovers (.tick (.tick (.reset started)))).2 cpu (.load .initial loaded)
      (congrArg Memory.mk (Array.toList_inj.1 words))
    exact ⟨cpu, rfl, failed, marks, same.2.1⟩

end Cpu

end NineBit.Machine

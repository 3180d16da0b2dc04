import NineBit.Proofs.Machine.Reachable

/-!
# Consistent processors

A micro-step relies on what earlier ones have left: that the buffered word is one it can execute,
that a skipped instruction is not executed, that a stopped processor stays stopped. `Cpu.Consistent`
says what holds between the ticks of every reachable processor, whatever its memory contains and
whenever that is written (`Cpu.consistent_of_reachable`). A micro-step is proved from what it finds
and leaves beside the datapath (`Cpu.Control`), by rules for computations that may fault
(`Cpu.Micro.Ensures`).
-/

namespace NineBit.Machine

namespace MicroState

/-- The micro-steps of a movement behind its fetch. -/
def ofMovement : MicroState → Bool
  | .movement | .sourceOperand | .sourceOperandLoad | .destinationOperand
  | .destinationOperandLoad | .movementFetch | .movementMove | .movementFlush => true
  | _ => false

/-- The micro-states in which a processor stops. -/
def stops : MicroState → Bool
  | .done | .pause | .halted => true
  | _ => false

/-- A word that a micro-state can execute: one of its own kind, and a movement to some place. -/
def Executes (state : MicroState) (word : Nat) : Prop :=
  (state = .condition → Isa.kind? word = some .condition) ∧
    (state = .action → Isa.kind? word = some .action) ∧
    (state.ofMovement = true →
      Isa.kind? word = some .movement ∧ (Isa.destination? word).isSome = true)

instance (state : MicroState) (word : Nat) : Decidable (state.Executes word) :=
  inferInstanceAs (Decidable (_ ∧ _ ∧ _))

theorem executes_of_stops {state : MicroState} (stops : state.stops = true) (word : Nat) :
    state.Executes word := by
  cases state
  case done | pause | halted => exact ⟨nofun, nofun, nofun⟩
  all_goals cases stops

/-- Micro-steps that execute no word can have any word in the buffer. -/
theorem executes_of_idle {state : MicroState} (condition : state ≠ .condition)
    (action : state ≠ .action) (movement : state.ofMovement = false) (word : Nat) :
    state.Executes word := by
  refine ⟨fun same => absurd same condition, fun same => absurd same action, fun of => ?_⟩
  rw [movement] at of
  cases of

theorem executes_movement {word : Nat} (kind : Isa.kind? word = some .movement)
    (assigned : (Isa.destination? word).isSome = true) : movement.Executes word :=
  ⟨nofun, nofun, fun _ => ⟨kind, assigned⟩⟩

theorem executes_condition {word : Nat} (kind : Isa.kind? word = some .condition) :
    condition.Executes word :=
  ⟨fun _ => kind, nofun, nofun⟩

theorem executes_action {word : Nat} (kind : Isa.kind? word = some .action) :
    action.Executes word :=
  ⟨nofun, fun _ => kind, nofun⟩

/-- A movement goes on with the same word. -/
theorem Executes.movement {state next : MicroState} {word : Nat} (executes : state.Executes word)
    (here : state.ofMovement = true) (later : next.ofMovement = true) : next.Executes word := by
  refine ⟨fun same => ?_, fun same => ?_, fun _ => executes.2.2 here⟩
  all_goals
    rw [same] at later
    cases later

end MicroState

namespace Datapath

variable {p q : Datapath}

theorem cells_loadMemory {words : List Int} {address : Int}
    (loaded : p.loadMemory words address = .ok q) : q.cells = p.cells := by
  unfold loadMemory at loaded
  split at loaded
  · cases loaded
    rfl
  · cases loaded

theorem cells_writeMemory {address value : Int} (written : p.writeMemory address value = .ok q) :
    q.cells = p.cells := by
  unfold writeMemory at written
  split at written
  · cases written
    rfl
  · cases written

end Datapath

namespace Cpu

/-- The state of a processor between two ticks. -/
structure Consistent (config : Config) (cpu : Cpu) : Prop where
  fits : cpu.datapath.Fits config
  outputs : ∀ word ∈ cpu.outputs, word < wordCount config.wordBits
  executes : cpu.state.Executes cpu.datapath.cells.instruction
  /-- A skip is pending only up to the next fetch, or where that has faulted. -/
  skip : cpu.skip = true →
    cpu.state = .finish ∨ cpu.state = .fetch ∨ cpu.state = .halted ∧ cpu.failure.isSome = true
  halted : cpu.state = .halted → cpu.running = false
  failure : cpu.failure.isSome = true → cpu.state = .halted ∧ cpu.running = false

/-- What a processor holds beside its datapath, and the buffered word. -/
structure Control where
  instruction : Nat
  state : MicroState
  running : Bool
  skip : Bool
  outputs : Array Nat
  failure : Option Failure

/-- The control of a processor. -/
def control (cpu : Cpu) : Control :=
  ⟨cpu.datapath.cells.instruction, cpu.state, cpu.running, cpu.skip, cpu.outputs, cpu.failure⟩

namespace Micro

variable {α β : Type}

/-! ## Rules -/

/-- From a processor with one property, a part of a micro-step comes to a value and a processor that
    belong together, or faults and leaves a processor with another property. -/
def Ensures (P : Cpu → Prop) (m : Micro α) (Q : α → Cpu → Prop) (E : Cpu → Prop) : Prop :=
  ∀ cpu, P cpu →
    match m.run cpu with
    | .ok a next => Q a next
    | .error _ next => E next

namespace Ensures

variable {P P' E E' : Cpu → Prop} {Q Q' : α → Cpu → Prop} {m : Micro α}

theorem pure {a : α} (here : ∀ cpu, P cpu → Q a cpu) : Ensures P (Pure.pure a) Q E := here

theorem throw {fault : Fault} (here : ∀ cpu, P cpu → E cpu) :
    Ensures P (MonadExcept.throw fault) Q E := here

theorem get : Ensures P MonadState.get (fun now cpu => now = cpu ∧ P cpu) E :=
  fun _ h => ⟨rfl, h⟩

theorem modify {f : Cpu → Cpu} {Q : Unit → Cpu → Prop} (here : ∀ cpu, P cpu → Q () (f cpu)) :
    Ensures P (MonadStateOf.modifyGet fun cpu => ((), f cpu)) Q E := here

theorem bind {f : α → Micro β} {R : β → Cpu → Prop} (first : Ensures P m Q E)
    (rest : ∀ a, Ensures (Q a) (f a) R E) : Ensures P (m >>= f) R E := by
  intro cpu h
  have middle := first cpu h
  rw [EStateM.run_bind]
  cases ran : m.run cpu with
  | ok a next =>
    rw [ran] at middle
    exact rest a next middle
  | error fault next =>
    rw [ran] at middle
    exact middle

theorem ite {p : Prop} [Decidable p] {n : Micro α} (yes : Ensures P m Q E)
    (no : Ensures P n Q E) : Ensures P (if p then m else n) Q E := by
  split
  · exact yes
  · exact no

theorem mono (ensures : Ensures P m Q E) (before : ∀ cpu, P' cpu → P cpu)
    (after : ∀ a cpu, Q a cpu → Q' a cpu) (faulted : ∀ cpu, E cpu → E' cpu) :
    Ensures P' m Q' E' := by
  intro cpu h
  have done := ensures cpu (before cpu h)
  cases ran : m.run cpu with
  | ok a next =>
    rw [ran] at done
    exact after a next done
  | error fault next =>
    rw [ran] at done
    exact faulted next done

/-- Two facts about the same part. -/
theorem both (first : Ensures P m Q E) (second : Ensures P' m Q' E') :
    Ensures (fun cpu => P cpu ∧ P' cpu) m (fun a cpu => Q a cpu ∧ Q' a cpu) E := by
  intro cpu h
  have one := first cpu h.1
  have other := second cpu h.2
  cases ran : m.run cpu with
  | ok a next =>
    rw [ran] at one other
    exact ⟨one, other⟩
  | error fault next =>
    rw [ran] at one
    exact one

end Ensures

theorem Keeps.ensures {I : Cpu → Prop} {m : Micro α} (keeps : Keeps I m) :
    Ensures I m (fun _ => I) I := by
  intro cpu h
  have kept := keeps cpu h
  unfold after at kept
  cases ran : m.run cpu with
  | ok a next =>
    rw [ran] at kept
    exact kept
  | error fault next =>
    rw [ran] at kept
    exact kept

/-! ## Parts of micro-steps -/

section
variable {c : Control} {config : Config}

/-- The processor has some control. -/
abbrev Shows (c : Control) (cpu : Cpu) : Prop := cpu.control = c

/-- A part that faults, if it does, before anything is put out. -/
abbrev Kept (c : Control) (cpu : Cpu) : Prop := cpu.outputs = c.outputs

theorem Shows.kept {cpu : Cpu} (shows_ : Shows c cpu) : Kept c cpu :=
  congrArg Control.outputs shows_

/-- A part that keeps the control. -/
abbrev Holds (c : Control) (m : Micro α) : Prop :=
  Ensures (Shows c) m (fun _ => Shows c) (Kept c)

/-- A use of the datapath that leaves the buffered word. -/
theorem keeps_control_use {f : Datapath → α × Datapath}
    (same : ∀ p, (f p).2.cells.instruction = p.cells.instruction) : Keeps (Shows c) (use f) := by
  intro cpu shows_
  show Cpu.control { cpu with datapath := (f cpu.datapath).2 } = c
  rw [← shows_]
  unfold control
  rw [same]

theorem keeps_control_change {f : Datapath → Datapath}
    (same : ∀ p, (f p).cells.instruction = p.cells.instruction) : Keeps (Shows c) (change f) := by
  intro cpu shows_
  show Cpu.control { cpu with datapath := f cpu.datapath } = c
  rw [← shows_]
  unfold control
  rw [same]

theorem keeps_control_readCell (cell : Cell) : Keeps (Shows c) (readCell cell) :=
  keeps_control_use fun _ => rfl

theorem keeps_control_evaluate (k : Combinator) : Keeps (Shows c) (evaluate k) :=
  keeps_control_use fun _ => rfl

theorem keeps_control_writeCell {cell : Cell} (other : Cell.instruction ≠ cell) (value : Nat) :
    Keeps (Shows c) (writeCell cell value) :=
  keeps_control_change fun p => Cells.get_set_of_ne p.cells _ other

theorem keeps_control_operate {cell : Cell} (other : Cell.instruction ≠ cell)
    (op : Isa.Operation) : Keeps (Shows c) (operate cell op) :=
  keeps_control_change fun p => Cells.get_set_of_ne p.cells _ other

theorem keeps_control_readMemory (address : Nat) : Keeps (Shows c) (readMemory address) := by
  intro cpu shows_
  unfold after EStateM.run readMemory Datapath.readMemory
  cases cpu.datapath.memory.read address with
  | ok word => exact shows_
  | error fault => exact shows_

theorem keeps_control_writeMemory (address value : Nat) :
    Keeps (Shows c) (writeMemory address value) := by
  intro cpu shows_
  unfold after EStateM.run writeMemory Datapath.writeMemory
  cases cpu.datapath.memory.write address (wrap cpu.datapath.bits value) with
  | ok memory => exact shows_
  | error fault => exact shows_

theorem Keeps.holds {m : Micro α} (keeps : Keeps (Shows c) m) : Holds c m :=
  .mono keeps.ensures (fun _ here => here) (fun _ _ here => here) fun _ here => here.kept

theorem holds_readCell (cell : Cell) : Holds c (readCell cell) :=
  (keeps_control_readCell cell).holds

theorem holds_evaluate (k : Combinator) : Holds c (evaluate k) := (keeps_control_evaluate k).holds

theorem holds_writeCell {cell : Cell} (other : Cell.instruction ≠ cell) (value : Nat) :
    Holds c (writeCell cell value) :=
  (keeps_control_writeCell other value).holds

theorem holds_operate {cell : Cell} (other : Cell.instruction ≠ cell) (op : Isa.Operation) :
    Holds c (operate cell op) :=
  (keeps_control_operate other op).holds

theorem holds_readMemory (address : Nat) : Holds c (readMemory address) :=
  (keeps_control_readMemory address).holds

theorem holds_writeMemory (address value : Nat) : Holds c (writeMemory address value) :=
  (keeps_control_writeMemory address value).holds

theorem holds_test (target : Isa.Target) : Holds c (test target) := by
  cases target
  case zeroFlag | carryFlag => exact .bind .get fun _ => .pure fun _ here => here.2
  all_goals exact .bind (holds_readCell _) fun _ => .pure fun _ here => here

theorem holds_tests (targets : List Isa.Target) : Holds c (targets.mapM test) := by
  induction targets with
  | nil => exact .pure fun _ here => here
  | cons target rest ih =>
    rw [List.mapM_cons]
    exact .bind (holds_test target) fun _ => .bind ih fun _ => .pure fun _ here => here

theorem holds_readSource (source : Isa.Source) : Holds c (readSource source) := by
  cases source
  case zero => exact .pure fun _ here => here
  case sum | sub | and | or | xor | stackptrAt => exact holds_evaluate _
  all_goals exact holds_readCell _

theorem ensures_readCell (cell : Cell) :
    Ensures (DatapathFits config) (readCell cell)
      (fun value _ => value < wordCount config.wordBits) fun _ => True := fun cpu fits => by
  rw [← fits.bits]
  exact fits.cell cell

theorem ensures_evaluate (k : Combinator) :
    Ensures (DatapathFits config) (evaluate k)
      (fun value _ => value < wordCount config.wordBits) fun _ => True := fun cpu fits => by
  rw [← fits.bits]
  exact wrap_lt cpu.datapath.bits _

/-- What a source gives is a word. -/
theorem ensures_readSource (source : Isa.Source) :
    Ensures (DatapathFits config) (readSource source)
      (fun value _ => value < wordCount config.wordBits) fun _ => True := by
  cases source
  case zero => exact .pure fun _ _ => wordCount_pos _
  case sum | sub | and | or | xor | stackptrAt => exact ensures_evaluate _
  all_goals exact ensures_readCell _

/-! ## Whole micro-steps -/

/-- A micro-step that keeps the control and goes on in some micro-state. -/
abbrev Goes (c : Control) (m : Step) (Q : MicroState → Prop) : Prop :=
  Ensures (Shows c) m (fun result cpu => Q result.1 ∧ Shows c cpu) (Kept c)

theorem goes_pure {Q : MicroState → Prop} {result : MicroState × List Message}
    (there : Q result.1) : Goes c (Pure.pure result) Q :=
  .pure fun _ here => ⟨there, here⟩

theorem goes_advance (next : MicroState) (messages : List Message) :
    Goes c (advance next messages) (· = next) :=
  .bind (holds_operate (by decide) _) fun _ => goes_pure rfl

theorem goes_resetStep : Goes c resetStep (· = .fetch) :=
  .bind (holds_writeCell (by decide) _) fun _ => .bind .get fun _ =>
    .bind (.mono (holds_writeCell (by decide) _) (fun _ here => here.2) (fun _ _ here => here)
      fun _ here => here) fun _ => goes_pure rfl

theorem ofMovement_afterSourceOperand (word : Nat) :
    (afterSourceOperand word).ofMovement = true := by
  unfold afterSourceOperand
  split <;> rfl

theorem goes_movementStep : Goes c movementStep (·.ofMovement = true) := by
  refine .bind (holds_readCell _) fun word => .pure fun _ here => ⟨?_, here⟩
  dsimp only
  split
  · rfl
  · exact ofMovement_afterSourceOperand word

theorem holds_readOperand : Holds c readOperand :=
  .bind (holds_readCell _) fun _ => holds_readMemory _

theorem goes_sourceOperandStep : Goes c sourceOperandStep (·.ofMovement = true) :=
  .bind holds_readOperand fun _ => .bind (holds_writeCell (by decide) _) fun _ =>
    .bind (holds_readCell _) fun word =>
      .pure fun _ here => ⟨ofMovement_afterSourceOperand word, here⟩

theorem goes_destinationOperandStep : Goes c destinationOperandStep (· = .movementFetch) :=
  .bind holds_readOperand fun _ => .bind (holds_writeCell (by decide) _) fun _ => goes_pure rfl

theorem goes_movementFetchStep : Goes c movementFetchStep (· = .movementMove) := by
  have buffers (address : Nat) : Goes c (bufferFrom address) (· = .movementMove) :=
    .bind (holds_readMemory _) fun _ => .bind (holds_writeCell (by decide) _) fun _ => goes_pure rfl
  refine .bind (holds_readCell _) fun word => ?_
  cases Isa.source word
  case memAt | mem => exact .bind (holds_readCell _) fun _ => buffers _
  case stackAt | stack => exact .bind (holds_evaluate _) fun _ => buffers _
  all_goals exact goes_pure rfl

theorem goes_movementFlushStep : Goes c movementFlushStep (· = .finish) := by
  have flushes (address : Nat) (onStack : Bool) : Goes c (flushTo address onStack) (· = .finish) :=
    .bind (holds_readCell _) fun _ => .bind (holds_writeMemory _ _) fun _ => goes_pure rfl
  refine .bind (holds_readCell _) fun word => ?_
  split
  · exact .bind (holds_readCell _) fun _ => flushes _ _
  · exact .bind (holds_readCell _) fun _ => flushes _ _
  · exact .bind (holds_evaluate _) fun _ => flushes _ _

/-- A condition that is not met leaves a skip. -/
theorem ensures_conditionStep :
    Ensures (Shows c) conditionStep
      (fun result cpu => result.1 = .finish ∧ (Shows c cpu ∨ Shows { c with skip := true } cpu))
      (Kept c) := by
  refine .bind (holds_readCell _) fun word => .bind (holds_tests _) fun results => .ite ?_ ?_
  · exact .pure fun _ here => ⟨rfl, .inl here⟩
  · refine .bind (.modify fun cpu here => ?_) fun _ => .pure fun _ here => ⟨rfl, .inr here⟩
    exact here ▸ rfl

/-- An action goes on to the end of its instruction, or stops the processor. -/
theorem ensures_actionStep :
    Ensures (Shows c) actionStep
      (fun result cpu => result.1 = .finish ∧ Shows c cpu ∨
        result.1.stops = true ∧ Shows { c with running := false } cpu)
      (Kept c) := by
  have ends {state : MicroState} (control : Isa.Control) (stops : state.stops = true) :
      Ensures (Shows c) (stop state control)
        (fun result cpu => result.1 = .finish ∧ Shows c cpu ∨
          result.1.stops = true ∧ Shows { c with running := false } cpu)
        (Kept c) :=
    .bind (.modify fun cpu here => here ▸ rfl) fun _ => .pure fun _ here => .inr ⟨stops, here⟩
  refine .bind (holds_readCell _) fun word => ?_
  cases Isa.action? word with
  | none => exact .bind .get fun _ => .throw fun _ here => here.2.kept
  | some action =>
    cases action with
    | register op r =>
      have other : Cell.instruction ≠ .ofRegister r := by cases r <;> decide
      exact .bind (holds_operate other _) fun _ => .pure fun _ here => .inl ⟨rfl, here⟩
    | control control =>
      cases control with
      | pop =>
        exact .bind (holds_operate (by decide) _) fun _ => .pure fun _ here => .inl ⟨rfl, here⟩
      | done => exact ends _ rfl
      | pause => exact ends _ rfl
      | halt => exact ends _ rfl

/-- What a move leads to: the control is kept, but that a word may have been put out. -/
def Moved (config : Config) (c : Control) (result : MicroState × List Message) (cpu : Cpu) : Prop :=
  (result.1 = .finish ∨ result.1 = .fetch ∨ result.1 = .movementFlush) ∧
    ∃ outputs, Shows { c with outputs := outputs } cpu ∧
      ∀ word ∈ outputs, word ∈ c.outputs ∨ word < wordCount config.wordBits

/-- A move that puts out nothing. -/
theorem ensures_moved {P : Cpu → Prop} {m : Micro α} {result : MicroState × List Message}
    (holds : Ensures P m (fun _ => Shows c) (Kept c))
    (goes : result.1 = .finish ∨ result.1 = .fetch ∨ result.1 = .movementFlush) :
    Ensures P (do let _ ← m; return result) (Moved config c) (Kept c) :=
  .bind holds fun _ => .pure fun _ here => ⟨goes, c.outputs, here, fun _ old => .inl old⟩

theorem ensures_movementMoveStep :
    Ensures (fun cpu => Shows c cpu ∧ DatapathFits config cpu) movementMoveStep (Moved config c)
      (Kept c) := by
  refine .bind (.both (holds_readCell _) (keeps_readCell _).ensures) fun word =>
    .bind (.both (holds_readSource _) (ensures_readSource _)) fun value => ?_
  have writes {cell : Cell} (other : Cell.instruction ≠ cell) (value : Nat) {P : Prop} :
      Ensures (fun cpu => Shows c cpu ∧ P) (writeCell cell value) (fun _ => Shows c) (Kept c) :=
    .mono (holds_writeCell other value) (fun _ here => here.1) (fun _ _ here => here)
      fun _ here => here
  cases Isa.destination? word with
  | none => exact .pure fun _ here => ⟨.inl rfl, c.outputs, here.1, fun _ old => .inl old⟩
  | some destination =>
    cases destination
    case nul => exact .pure fun _ here => ⟨.inl rfl, c.outputs, here.1, fun _ old => .inl old⟩
    case push =>
      exact .bind (writes (by decide) _) fun _ => .bind (holds_operate (by decide) _) fun _ =>
        ensures_moved (holds_writeCell (by decide) _) (.inr (.inr rfl))
    case out =>
      refine .bind (.modify (Q := fun _ => Moved config c (.finish, [])) ?_) fun _ =>
        .pure fun _ here => ⟨.inl rfl, here.2⟩
      rintro cpu ⟨rfl, lt⟩
      refine ⟨.inl rfl, _, rfl, fun word member => ?_⟩
      rcases Array.mem_push.1 member with old | rfl
      · exact .inl old
      · exact .inr lt
    case pc => exact ensures_moved (writes (by decide) _) (.inr (.inl rfl))
    case memAt | mem | stackAt | stack =>
      exact ensures_moved (writes (by decide) _) (.inr (.inr rfl))
    all_goals exact ensures_moved (writes (by decide) _) (.inl rfl)

/-- What a fetch leads to: a micro-state that executes the word now in the buffer, and no pending
    skip. -/
def Fetched (c : Control) (result : MicroState × List Message) (cpu : Cpu) : Prop :=
  ∃ word, Shows { c with instruction := word, skip := false } cpu ∧ result.1.Executes word ∧
    result.1.stops = false

/-- Reading the memory gives a word. -/
theorem ensures_readMemory (address : Nat) :
    Ensures (DatapathFits config) (readMemory address)
      (fun word cpu => word < wordCount cpu.datapath.bits) fun _ => True := by
  intro cpu fits
  unfold EStateM.run readMemory Datapath.readMemory
  cases read : cpu.datapath.memory.read address with
  | ok word => exact fits.memory.read read
  | error fault => trivial

theorem ensures_fetchStep :
    Ensures (fun cpu => Shows c cpu ∧ DatapathFits config cpu) fetchStep (Fetched c) (Kept c) := by
  refine .bind (.both (holds_readCell _) (keeps_readCell _).ensures) fun address =>
    .bind (.both (holds_readMemory _) (ensures_readMemory _)) fun word => ?_
  refine .bind (Q := fun _ => Shows { c with instruction := word }) ?_ fun _ => ?_
  · rintro cpu ⟨rfl, lt⟩
    show (⟨wrap cpu.datapath.bits word, _, _, _, _, _⟩ : Control) = _
    rw [wrap_of_lt lt]
    rfl
  · refine .bind .get fun now => ?_
    by_cases skip : now.skip = true
    · rw [if_pos skip]
      refine .bind (.modify (Q := fun _ => Shows { c with instruction := word, skip := false }) ?_)
        fun _ => .pure fun _ here => ⟨word, here, ?_⟩
      · rintro cpu ⟨-, here⟩
        exact congrArg (fun c : Control => { c with skip := false }) here
      · dsimp only
        split
        all_goals exact ⟨MicroState.executes_of_idle (by decide) (by decide) rfl word, rfl⟩
    · rw [if_neg skip]
      have goes {cpu : Cpu} (here : now = cpu ∧ Shows { c with instruction := word } cpu) :
          Shows { c with instruction := word, skip := false } cpu := by
        obtain ⟨rfl, here⟩ := here
        have same : now.skip = c.skip := congrArg Control.skip here
        rw [← eq_false_of_ne_true skip, same]
        exact here
      cases decoded : Isa.kind? word with
      | none => exact .throw fun _ here => here.2.kept
      | some kind =>
        cases kind with
        | movement =>
          cases place : Isa.destination? word with
          | none => exact .bind (.throw fun _ here => here.2.kept) fun _ => .pure fun _ here => here
          | some destination =>
            have assigned : (Isa.destination? word).isSome = true := by
              rw [place]
              rfl
            exact .pure fun _ here =>
              ⟨word, goes here, MicroState.executes_movement decoded assigned, rfl⟩
        | condition =>
          exact .pure fun _ here => ⟨word, goes here, MicroState.executes_condition decoded, rfl⟩
        | action =>
          exact .pure fun _ here => ⟨word, goes here, MicroState.executes_action decoded, rfl⟩

/-- What a micro-step of a running processor leads to, unless it faults. -/
structure Continues (config : Config) (result : MicroState × List Message) (next : Cpu) : Prop where
  outputs : ∀ word ∈ next.outputs, word < wordCount config.wordBits
  executes : result.1.Executes next.datapath.cells.instruction
  skip : next.skip = true → result.1 = .finish ∨ result.1 = .fetch
  running : next.running = !result.1.stops
  failure : next.failure = none

theorem Continues.of_shows {result : MicroState × List Message} {next : Cpu} (here : Shows c next)
    (outputs : ∀ word ∈ c.outputs, word < wordCount config.wordBits)
    (executes : result.1.Executes c.instruction)
    (skip : c.skip = true → result.1 = .finish ∨ result.1 = .fetch)
    (running : c.running = !result.1.stops) (failure : c.failure = none) :
    Continues config result next := by
  cases here
  exact ⟨outputs, executes, skip, running, failure⟩

end

end Micro

open Micro

namespace Consistent

variable {config : Config} {cpu next : Cpu} {result : MicroState × List Message}

theorem failure_eq_none (consistent : cpu.Consistent config) (running : cpu.running = true) :
    cpu.failure = none := by
  cases failure : cpu.failure with
  | none => rfl
  | some f =>
    have stopped := (consistent.failure (by rw [failure]; rfl)).2
    rw [running] at stopped
    cases stopped

/-- Between its fetch and its end, an instruction is not skipped. -/
theorem not_skip (consistent : cpu.Consistent config) (running : cpu.running = true)
    (finish : cpu.state ≠ .finish) (fetch : cpu.state ≠ .fetch) : ¬ cpu.skip = true := by
  intro skip
  rcases consistent.skip skip with here | here | ⟨-, failed⟩
  · exact finish here
  · exact fetch here
  · rw [consistent.failure_eq_none running] at failed
    cases failed

/-- A micro-step that keeps the control. -/
theorem continues (consistent : cpu.Consistent config) (running : cpu.running = true)
    (here : Shows cpu.control next)
    (executes : result.1.Executes cpu.datapath.cells.instruction)
    (skip : cpu.skip = true → result.1 = .finish ∨ result.1 = .fetch)
    (goes : result.1.stops = false) : Continues config result next :=
  .of_shows here consistent.outputs executes skip (by rw [goes]; exact running)
    (consistent.failure_eq_none running)

/-- A micro-step that goes on to one for which the buffered word does not matter. -/
theorem continues_idle (consistent : cpu.Consistent config) (running : cpu.running = true)
    (here : Shows cpu.control next) (goes : result.1 = .finish ∨ result.1 = .fetch) :
    Continues config result next := by
  refine consistent.continues running here ?_ (fun _ => goes) ?_
  · rcases goes with same | same
    all_goals
      rw [same]
      exact MicroState.executes_of_idle (by decide) (by decide) rfl _
  · rcases goes with same | same
    all_goals
      rw [same]
      rfl

/-- A movement that goes on. -/
theorem continues_movement (consistent : cpu.Consistent config) (running : cpu.running = true)
    (of : cpu.state.ofMovement = true) (here : Shows cpu.control next)
    (goes : result.1.ofMovement = true) : Continues config result next := by
  have unskipped : ¬ cpu.skip = true := by
    apply consistent.not_skip running
    all_goals
      intro same
      rw [same] at of
      cases of
  apply consistent.continues running here (consistent.executes.movement of goes)
  · intro skip
    exact absurd skip unskipped
  · cases state : result.1
    case done | pause | halted =>
      rw [state] at goes
      cases goes
    all_goals rfl

/-- A fetched word is one that the next micro-step executes. -/
theorem continues_fetched (consistent : cpu.Consistent config) (running : cpu.running = true)
    (fetched : Fetched cpu.control result next) : Continues config result next := by
  obtain ⟨word, here, executes, goes⟩ := fetched
  exact .of_shows here consistent.outputs executes nofun (by rw [goes]; exact running)
    (consistent.failure_eq_none running)

/-- A condition leaves a skip for the end of its instruction at most. -/
theorem continues_condition (consistent : cpu.Consistent config) (running : cpu.running = true)
    (goes : result.1 = .finish)
    (here : Shows cpu.control next ∨ Shows { cpu.control with skip := true } next) :
    Continues config result next := by
  rcases here with here | here
  · exact consistent.continues_idle running here (.inl goes)
  · refine .of_shows here consistent.outputs ?_ (fun _ => .inl goes) ?_
      (consistent.failure_eq_none running)
    · rw [goes]
      exact MicroState.executes_of_idle (by decide) (by decide) rfl _
    · rw [goes]
      exact running

/-- An action that stops the processor leaves no skip behind. -/
theorem continues_action (consistent : cpu.Consistent config) (running : cpu.running = true)
    (state : cpu.state = .action)
    (acted : result.1 = .finish ∧ Shows cpu.control next ∨
      result.1.stops = true ∧ Shows { cpu.control with running := false } next) :
    Continues config result next := by
  rcases acted with ⟨goes, here⟩ | ⟨stops, here⟩
  · exact consistent.continues_idle running here (.inl goes)
  · refine .of_shows here consistent.outputs (MicroState.executes_of_stops stops _)
      (fun skip => ?_) ?_ (consistent.failure_eq_none running)
    · exact absurd skip (consistent.not_skip running (by simp [state]) (by simp [state]))
    · rw [stops]
      rfl

/-- A move goes on with its own word if it has to be written to the memory, and puts out a word if
    it puts out anything. -/
theorem continues_moved (consistent : cpu.Consistent config) (running : cpu.running = true)
    (state : cpu.state = .movementMove) (moved : Moved config cpu.control result next) :
    Continues config result next := by
  obtain ⟨goes, outputs, here, words⟩ := moved
  have executes := consistent.executes
  rw [state] at executes
  refine .of_shows here ?_ ?_ (fun skip => ?_) ?_ (consistent.failure_eq_none running)
  · exact fun word member => (words word member).elim (consistent.outputs word) id
  · rcases goes with same | same | same
    · rw [same]
      exact MicroState.executes_of_idle (by decide) (by decide) rfl _
    · rw [same]
      exact MicroState.executes_of_idle (by decide) (by decide) rfl _
    · rw [same]
      exact executes.movement rfl rfl
  · exact absurd skip (consistent.not_skip running (by simp [state]) (by simp [state]))
  · rcases goes with same | same | same
    all_goals
      rw [same]
      exact running

/-- The micro-step of a consistent processor that runs. -/
theorem ensures_step (consistent : cpu.Consistent config) (running : cpu.running = true) :
    Ensures (fun x => Shows cpu.control x ∧ DatapathFits config x) (step cpu.state)
      (Continues config) (Kept cpu.control) := by
  have leads {m : Step} {Q : MicroState → Prop} (goes : Goes cpu.control m Q)
      (continues : ∀ result next, Q result.1 → Shows cpu.control next →
        Continues config result next) :
      Ensures (fun x => Shows cpu.control x ∧ DatapathFits config x) m (Continues config)
        (Kept cpu.control) :=
    .mono goes (fun _ h => h.1) (fun _ _ h => continues _ _ h.1 h.2) fun _ h => h
  cases state : cpu.state with
  | reset =>
    exact leads goes_resetStep fun _ _ goes here =>
      consistent.continues_idle running here (.inr goes)
  | fetch =>
    exact .mono ensures_fetchStep (fun _ h => h) (fun _ _ => consistent.continues_fetched running)
      fun _ h => h
  | skipTwo =>
    refine leads (goes_advance .skipOne []) fun _ _ goes here =>
      consistent.continues running here ?_ (fun skip => ?_) ?_
    · rw [goes]
      exact MicroState.executes_of_idle (by decide) (by decide) rfl _
    · exact absurd skip (consistent.not_skip running (by simp [state]) (by simp [state]))
    · rw [goes]
      rfl
  | skipOne =>
    exact leads (goes_advance .finish []) fun _ _ goes here =>
      consistent.continues_idle running here (.inl goes)
  | condition =>
    exact .mono ensures_conditionStep (fun _ h => h.1)
      (fun _ _ h => consistent.continues_condition running h.1 h.2) fun _ h => h
  | action =>
    exact .mono ensures_actionStep (fun _ h => h.1)
      (fun _ _ => consistent.continues_action running state) fun _ h => h
  | done | pause =>
    exact leads (goes_pure rfl) fun _ _ goes here =>
      consistent.continues_idle running here (.inl goes.symm)
  | halted =>
    have stopped := consistent.halted state
    rw [running] at stopped
    cases stopped
  | movement =>
    exact leads goes_movementStep fun _ _ goes here =>
      consistent.continues_movement running (by rw [state]; rfl) here goes
  | sourceOperand =>
    exact leads (goes_advance .sourceOperandLoad _) fun _ _ goes here =>
      consistent.continues_movement running (by rw [state]; rfl) here (by rw [goes]; rfl)
  | sourceOperandLoad =>
    exact leads goes_sourceOperandStep fun _ _ goes here =>
      consistent.continues_movement running (by rw [state]; rfl) here goes
  | destinationOperand =>
    exact leads (goes_advance .destinationOperandLoad _) fun _ _ goes here =>
      consistent.continues_movement running (by rw [state]; rfl) here (by rw [goes]; rfl)
  | destinationOperandLoad =>
    exact leads goes_destinationOperandStep fun _ _ goes here =>
      consistent.continues_movement running (by rw [state]; rfl) here (by rw [goes]; rfl)
  | movementFetch =>
    exact leads goes_movementFetchStep fun _ _ goes here =>
      consistent.continues_movement running (by rw [state]; rfl) here (by rw [goes]; rfl)
  | movementMove =>
    exact .mono ensures_movementMoveStep (fun _ h => h)
      (fun _ _ => consistent.continues_moved running state) fun _ h => h
  | movementFlush =>
    exact leads goes_movementFlushStep fun _ _ goes here =>
      consistent.continues_idle running here (.inl goes)
  | finish =>
    exact leads (goes_advance .fetch []) fun _ _ goes here =>
      consistent.continues_idle running here (.inr goes)

/-- What the tick of a processor that runs leads to. -/
theorem tick_running (consistent : cpu.Consistent config) (running : cpu.running = true) :
    cpu.tick.1.Consistent config ∧ cpu.tick.1.running = !cpu.tick.1.state.stops := by
  have fits := fits_tick consistent.fits
  have stepped := consistent.ensures_step running cpu.clearMarks ⟨rfl, consistent.fits.clearMarks⟩
  cases ran : (step cpu.state).run cpu.clearMarks with
  | ok result next =>
    rw [ran] at stepped
    rw [tick_of_ok running ran] at fits ⊢
    refine ⟨⟨fits, stepped.outputs, stepped.executes, fun skip => ?_, fun halted => ?_, ?_⟩,
      stepped.running⟩
    · exact (stepped.skip skip).imp id .inl
    · have halted : result.1 = .halted := halted
      have stopped := stepped.running
      rw [halted] at stopped
      exact stopped
    · intro failed
      have failed : next.failure.isSome = true := failed
      rw [stepped.failure] at failed
      cases failed
  | error fault next =>
    rw [ran] at stepped
    rw [tick_of_error running ran] at fits ⊢
    refine ⟨⟨fits, ?_, MicroState.executes_of_stops rfl _, fun _ => .inr (.inr ⟨rfl, rfl⟩),
      fun _ => rfl, fun _ => ⟨rfl, rfl⟩⟩, rfl⟩
    have kept : next.outputs = cpu.outputs := stepped
    show ∀ word ∈ next.outputs, _
    rw [kept]
    exact consistent.outputs

theorem tick (consistent : cpu.Consistent config) : cpu.tick.1.Consistent config := by
  cases running : cpu.running with
  | true => exact (consistent.tick_running running).1
  | false =>
    rw [tick_of_stopped running]
    exact ⟨consistent.fits.clearMarks, consistent.outputs, consistent.executes, consistent.skip,
      consistent.halted, consistent.failure⟩

/-- Whatever is done to the memory in the midst of an instruction. -/
theorem setDatapath (consistent : cpu.Consistent config) {p : Datapath} (fits : p.Fits config)
    (same : p.cells = cpu.datapath.cells) : { cpu with datapath := p }.Consistent config where
  fits := fits
  outputs := consistent.outputs
  executes := by
    show cpu.state.Executes p.cells.instruction
    rw [same]
    exact consistent.executes
  skip := consistent.skip
  halted := consistent.halted
  failure := consistent.failure

theorem initial (config : Config) : (Cpu.initial config).Consistent config where
  fits := .initial
  outputs _ member := absurd member (Array.not_mem_empty _)
  executes := ⟨nofun, nofun, nofun⟩
  skip := nofun
  halted := nofun
  failure := nofun

theorem reset (consistent : cpu.Consistent config) : cpu.reset.Consistent config where
  fits := consistent.fits.reset
  outputs _ member := absurd member (Array.not_mem_empty _)
  executes := ⟨nofun, nofun, nofun⟩
  skip := nofun
  halted := nofun
  failure := nofun

theorem resume (consistent : cpu.Consistent config) : cpu.resume.Consistent config := by
  unfold Cpu.resume
  split
  · rename_i resumable
    have stopped := (Bool.and_eq_true_iff.1 resumable).2
    have other : cpu.state ≠ .halted := by
      intro halted
      rw [halted] at stopped
      cases stopped
    exact ⟨consistent.fits, consistent.outputs, consistent.executes, consistent.skip,
      fun halted => absurd halted other,
      fun failed => absurd (consistent.failure failed).1 other⟩
  · exact consistent

end Consistent

/-- Loading words changes neither cells nor control. -/
theorem Consistent.load {config : Config} {cpu next : Cpu} {words : List Int}
    (consistent : cpu.Consistent config) (loaded : cpu.load words = .ok next) :
    next.Consistent config := by
  unfold Cpu.load at loaded
  cases filled : Datapath.loadMemory _ _ 0 with
  | ok datapath =>
    rw [filled] at loaded
    cases loaded
    exact consistent.setDatapath (consistent.fits.loadMemory filled)
      (Datapath.cells_loadMemory filled)
  | error fault =>
    rw [filled] at loaded
    cases loaded

/-- Every reachable processor is consistent. -/
theorem Reachable.consistent {config : Config} {cpu : Cpu} (reachable : cpu.Reachable config) :
    cpu.Consistent config := by
  induction reachable with
  | initial => exact .initial config
  | load before loaded ih => exact ih.load loaded
  | reset before ih => exact ih.reset
  | tick before ih => exact ih.tick
  | resume before ih => exact ih.resume
  | write before written ih =>
    exact ih.setDatapath (ih.fits.writeMemory written) (Datapath.cells_writeMemory written)

/-- A reachable processor holds words only. -/
theorem Reachable.fits {config : Config} {cpu : Cpu} (reachable : cpu.Reachable config) :
    cpu.datapath.Fits config := reachable.consistent.fits

end Cpu

end NineBit.Machine

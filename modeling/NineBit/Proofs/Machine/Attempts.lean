import NineBit.Machine.Attempt
import NineBit.Proofs.Host
import NineBit.Proofs.Machine.Consistency

/-!
# Ticks that break off

On a host a tick is the tick anywhere, if the host writes the numbers in what it reports, and else
it breaks off at one of them (`Cpu.attempt_of_attained`). No lookup ever fails: each table has an
entry for whatever a word can name. A processor that a tick has left in its midst is consistent all
the same, so that whatever is done to it then, the next tick is no different. A micro-step is
followed part by part (`Cpu.Attempt.Follows`), with what its parts give and keep
(`Cpu.Attempt.Gives`).
-/

namespace NineBit.Machine

/-- The numbers in the wordings of messages. -/
def Message.numbersOf (messages : List Message) : List Int := messages.flatMap numbers

namespace Cpu

namespace Attempt

open Micro

variable {α β : Type} {host : Host}

/-! ## Rules -/

/-- How a part of a micro-step ends on a host: as it does anywhere, with all its numbers written, or
    at one that is not. -/
inductive Ends (host : Host) (whole : EStateM.Result Halt Cpu α) (numbers : List Int)
    (C : Cpu → Prop) : EStateM.Result Halt Cpu α → Prop where
  | whole (writes : host.Writes numbers) : Ends host whole numbers C whole
  | breaks {last : Cpu} (unwritten : ¬host.Writes numbers) (left : C last) :
      Ends host whole numbers C (.error (.crash (.digits host.digits)) last)

/-- How a part ends anywhere, as one on a host. -/
def outcome : EStateM.Result Fault Cpu α → EStateM.Result Halt Cpu α
  | .ok value next => .ok value next
  | .error fault next => .error (.fault fault) next

/-- The numbers of a part: those that belong to its value, or those of its fault. -/
def numbersIn (shown : α → List Int) : EStateM.Result Fault Cpu α → List Int
  | .ok value _ => shown value
  | .error fault _ => fault.numbers

/-- From a processor with one property, a part on a host ends as the part anywhere does, or breaks
    off at a number and leaves a processor with another property. -/
def Follows (host : Host) (P : Cpu → Prop) (x : Attempt α) (m : Micro α) (shown : α → List Int)
    (C : Cpu → Prop) : Prop :=
  ∀ cpu, P cpu → Ends host (outcome (m.run cpu)) (numbersIn shown (m.run cpu)) C (x.run cpu)

/-- From a processor with one property, a part comes to a value and a processor that belong
    together, or to a fault whose numbers are written unless the processor has another property. -/
def Gives (host : Host) (P : Cpu → Prop) (m : Micro α) (Q : α → Cpu → Prop) (C : Cpu → Prop) :
    Prop :=
  ∀ cpu, P cpu →
    match m.run cpu with
    | .ok value next => Q value next
    | .error fault next => ¬host.Writes fault.numbers → C next

theorem write_of_writes {numbers : List Int} (writes : host.Writes numbers) :
    write host numbers = pure () := by
  funext cpu
  unfold write
  rw [Host.meetAll_decimal, if_pos writes]
  rfl

theorem run_write_of_not {numbers : List Int} (unwritten : ¬host.Writes numbers) (cpu : Cpu) :
    (write host numbers).run cpu = .error (.crash (.digits host.digits)) cpu := by
  unfold EStateM.run write
  rw [Host.meetAll_decimal, if_neg unwritten]

theorem run_take_ok {m : Micro α} {cpu next : Cpu} {value : α} (ran : m.run cpu = .ok value next) :
    (take host m).run cpu = .ok value next := by
  unfold EStateM.run take
  rw [ran]

theorem run_take_error {m : Micro α} {cpu next : Cpu} {fault : Fault}
    (ran : m.run cpu = .error fault next) :
    (take host m).run cpu = (raise host fault).run next := by
  show take host m cpu = _
  unfold take
  rw [ran]

theorem run_raise_of_writes {fault : Fault} (writes : host.Writes fault.numbers) (cpu : Cpu) :
    (@raise α host fault).run cpu = .error (.fault fault) cpu := by
  unfold raise
  rw [write_of_writes writes]
  rfl

theorem run_raise_of_not {fault : Fault} (unwritten : ¬host.Writes fault.numbers) (cpu : Cpu) :
    (@raise α host fault).run cpu = .error (.crash (.digits host.digits)) cpu := by
  unfold raise
  rw [EStateM.run_bind, run_write_of_not unwritten]

theorem take_bind (m : Micro α) (f : α → Micro β) :
    take host (m >>= f) = take host m >>= fun value => take host (f value) := by
  funext cpu
  show (take host (m >>= f)).run cpu = (take host m >>= fun value => take host (f value)).run cpu
  cases ran : m.run cpu with
  | ok value next =>
    have whole : (m >>= f).run cpu = (f value).run next := by rw [EStateM.run_bind, ran]
    rw [EStateM.run_bind, run_take_ok ran]
    dsimp only
    cases done : (f value).run next with
    | ok result last => rw [run_take_ok (whole.trans done), run_take_ok done]
    | error fault last => rw [run_take_error (whole.trans done), run_take_error done]
  | error fault last =>
    have whole : (m >>= f).run cpu = .error fault last := by rw [EStateM.run_bind, ran]
    rw [EStateM.run_bind, run_take_error ran, run_take_error whole]
    by_cases writes : host.Writes fault.numbers
    · rw [run_raise_of_writes writes, run_raise_of_writes writes]
    · rw [run_raise_of_not writes, run_raise_of_not writes]

namespace Follows

variable {P C : Cpu → Prop} {Q : α → Cpu → Prop} {shown : α → List Int} {x : Attempt α}
  {m : Micro α}

theorem pure {value : α} (writes : host.Writes (shown value)) :
    Follows host P (Pure.pure value) (Pure.pure value) shown C := fun _ _ => .whole writes

theorem raise {fault : Fault} (left : ∀ cpu, P cpu → ¬host.Writes fault.numbers → C cpu) :
    Follows host P (Attempt.raise host fault) (MonadExcept.throw fault) shown C := by
  intro cpu here
  by_cases writes : host.Writes fault.numbers
  · rw [run_raise_of_writes writes]
    exact .whole writes
  · rw [run_raise_of_not writes]
    exact .breaks writes (left cpu here writes)

/-- A part that is taken as it is ends a micro-step. -/
theorem take (gives : Gives host P m (fun value _ => host.Writes (shown value)) C) :
    Follows host P (Attempt.take host m) m shown C := by
  intro cpu here
  have given := gives cpu here
  cases ran : m.run cpu with
  | ok value next =>
    rw [ran] at given
    rw [run_take_ok ran]
    exact .whole given
  | error fault next =>
    rw [ran] at given
    rw [run_take_error ran]
    by_cases writes : host.Writes fault.numbers
    · rw [run_raise_of_writes writes]
      exact .whole writes
    · rw [run_raise_of_not writes]
      exact .breaks writes (given writes)

/-- A part that is taken as it is comes before others. -/
theorem take_bind {part : Micro β} {Q : β → Cpu → Prop} {f : β → Attempt α} {g : β → Micro α}
    (gives : Gives host P part Q C) (next : ∀ value, Follows host (Q value) (f value) (g value)
      shown C) : Follows host P (Attempt.take host part >>= f) (part >>= g) shown C := by
  intro cpu here
  have given := gives cpu here
  rw [EStateM.run_bind, EStateM.run_bind]
  cases ran : part.run cpu with
  | ok value middle =>
    rw [ran] at given
    rw [run_take_ok ran]
    exact next value middle given
  | error fault last =>
    rw [ran] at given
    rw [run_take_error ran]
    by_cases writes : host.Writes fault.numbers
    · rw [run_raise_of_writes writes]
      exact .whole writes
    · rw [run_raise_of_not writes]
      exact .breaks writes (given writes)

/-- Numbers are written that the part shows in the end. -/
theorem write_bind {numbers : List Int}
    (left : ∀ cpu, P cpu → ¬host.Writes numbers → C cpu)
    (shows_ : ∀ cpu, P cpu → numbers ⊆ numbersIn shown (m.run cpu))
    (later : host.Writes numbers → Follows host P x m shown C) :
    Follows host P (write host numbers >>= fun _ => x) m shown C := by
  intro cpu here
  by_cases writes : host.Writes numbers
  · rw [write_of_writes writes]
    exact later writes cpu here
  · rw [EStateM.run_bind, run_write_of_not writes]
    refine .breaks (fun all => writes fun n member => all n ?_) (left cpu here writes)
    exact shows_ cpu here member

theorem get_bind {f : Cpu → Attempt α} {g : Cpu → Micro α}
    (next : ∀ now, Follows host (fun cpu => now = cpu ∧ P cpu) (f now) (g now) shown C) :
    Follows host P (get >>= f) (get >>= g) shown C := fun cpu here => next cpu cpu ⟨rfl, here⟩

theorem modify_bind {change : Cpu → Cpu} {Q : Cpu → Prop} {f : Unit → Attempt α}
    {g : Unit → Micro α} (changed : ∀ cpu, P cpu → Q (change cpu))
    (next : Follows host Q (f ()) (g ()) shown C) :
    Follows host P (modify change >>= f) (modify change >>= g) shown C :=
  fun cpu here => next (change cpu) (changed cpu here)

/-- What is known beside the processor. -/
theorem of_known {p : Prop} (follows : p → Follows host P x m shown C) :
    Follows host (fun cpu => p ∧ P cpu) x m shown C := fun cpu here => follows here.1 cpu here.2

end Follows

namespace Gives

variable {P C : Cpu → Prop} {Q : α → Cpu → Prop} {m : Micro α}

theorem bind {f : α → Micro β} {R : β → Cpu → Prop} (first : Gives host P m Q C)
    (next : ∀ value, Gives host (Q value) (f value) R C) : Gives host P (m >>= f) R C := by
  intro cpu here
  have given := first cpu here
  rw [EStateM.run_bind]
  cases ran : m.run cpu with
  | ok value middle =>
    rw [ran] at given
    exact next value middle given
  | error fault last =>
    rw [ran] at given
    exact given

theorem mono {R : α → Cpu → Prop} (gives : Gives host P m Q C)
    (after : ∀ value next, Q value next → R value next) : Gives host P m R C := by
  intro cpu here
  have given := gives cpu here
  cases ran : m.run cpu with
  | ok value next =>
    rw [ran] at given
    exact after value next given
  | error fault last =>
    rw [ran] at given
    exact given

theorem of_known {p : Prop} (gives : p → Gives host P m Q C) :
    Gives host (fun cpu => p ∧ P cpu) m Q C := fun cpu here => gives here.1 cpu here.2

end Gives

/-! ## Lookups -/

theorem sourceOf_eq (word : Nat) : sourceOf word = pure (Isa.source word) := by
  have found : sources.lookup (word / 16 % 16) = some (Isa.source word) := by
    have all : ∀ code < 16, sources.lookup code = some (Isa.Source.ofCode code) := by decide
    rw [all _ (Nat.mod_lt _ (by decide))]
    unfold Isa.source Isa.Source.ofCode
    rw [Nat.mod_mod]
  unfold sourceOf find
  dsimp only
  rw [found]

theorem countOperands_eq (word : Nat) : countOperands word = pure (Isa.operandCount word) := by
  unfold countOperands Isa.operandCount
  rw [sourceOf_eq]
  split <;> rfl

theorem operationOf_eq (op : Isa.Operation) :
    operationOf (String.singleton op.symbol) = pure op := by
  cases op <;> rfl

/-- The register of an action is the one that the lowest two bits of its word name. -/
theorem register_eq {word : Nat} {op : Isa.Operation} {r : Isa.Register}
    (decoded : Isa.action? word = some (.register op r)) : r = .ofCode (word % 4) := by
  have lowest : Isa.Register.ofCode (word % 64) = .ofCode (word % 4) := by
    unfold Isa.Register.ofCode
    rw [Nat.mod_mod_of_dvd word (by decide : 4 ∣ 64), Nat.mod_mod]
  unfold Isa.action? Isa.Action.ofCode? at decoded
  rw [← lowest]
  split at decoded
  case h_1 | h_2 | h_3 | h_4 => cases decoded
  case h_5 code =>
    split at decoded
    case h_6 => cases decoded
    all_goals
      cases decoded
      rfl

theorem operandOf_eq {word : Nat} {op : Isa.Operation} {r : Isa.Register}
    (decoded : Isa.action? word = some (.register op r)) :
    operandOf word = pure (Cell.ofRegister r) := by
  have found : ∀ code < 4, (find registerNames code s!"{code}" >>= cellOf) =
      pure (Cell.ofRegister (.ofCode code)) := by
    intro code lt
    match code, lt with
    | 0, _ | 1, _ | 2, _ | 3, _ => rfl
  rw [register_eq decoded]
  exact found _ (Nat.mod_lt _ (by decide))

theorem element_skips (word : Nat) :
    element skips (Isa.operandCount word) =
      pure (match Isa.operandCount word with
        | 0 => MicroState.finish
        | 1 => .skipOne
        | _ => .skipTwo) := by
  have le : Isa.operandCount word ≤ 2 := by
    unfold Isa.operandCount
    split
    · split <;> split <;> decide
    · decide
  generalize Isa.operandCount word = count at le
  match count, le with
  | 0, _ | 1, _ | 2, _ => rfl

/-! ## Parts -/

section
variable {config : Config} {c : Control} {C : Cpu → Prop}

/-- The processor has some control, and holds words only. -/
abbrev Here (config : Config) (c : Control) (cpu : Cpu) : Prop :=
  Shows c cpu ∧ DatapathFits config cpu

/-- A number that is not written is larger than any word. -/
theorem lt_of_not_writes {numbers : List Int} (unwritten : ¬host.Writes numbers) {bound : Nat}
    (bounded : ∀ n ∈ numbers, n.natAbs ≤ bound) : decimalCount host.digits ≤ bound := by
  refine Nat.le_of_not_lt fun beyond => unwritten fun n member => ?_
  exact Nat.lt_of_le_of_lt (bounded n member) beyond

/-- A part that does not fault keeps what it keeps, and gives what it gives. -/
theorem gives_sure {m : Micro α} {V : α → Prop} {E : Cpu → Prop} (control : Keeps (Shows c) m)
    (fits : Keeps (DatapathFits config) m)
    (values : Ensures (DatapathFits config) m (fun value _ => V value) E)
    (sure : ∀ cpu, ∃ value next, m.run cpu = .ok value next) :
    Gives host (Here config c) m (fun value next => V value ∧ Here config c next) C := by
  intro cpu here
  have shown := control cpu here.1
  have held := fits cpu here.2
  have given := values cpu here.2
  obtain ⟨value, next, ran⟩ := sure cpu
  unfold after at shown held
  rw [ran] at shown held given ⊢
  exact ⟨given, shown, held⟩

theorem gives_readCell (cell : Cell) :
    Gives host (Here config c) (readCell cell)
      (fun value next => value < wordCount config.wordBits ∧ Here config c next) C :=
  gives_sure (keeps_control_readCell cell) (keeps_readCell cell) (ensures_readCell cell)
    fun _ => ⟨_, _, rfl⟩

theorem gives_evaluate (k : Combinator) :
    Gives host (Here config c) (evaluate k)
      (fun value next => value < wordCount config.wordBits ∧ Here config c next) C :=
  gives_sure (keeps_control_evaluate k) (keeps_evaluate k) (ensures_evaluate k)
    fun _ => ⟨_, _, rfl⟩

theorem gives_writeCell {cell : Cell} (other : Cell.instruction ≠ cell) (value : Nat) :
    Gives host (Here config c) (writeCell cell value) (fun _ => Here config c) C :=
  fun cpu here =>
    ⟨keeps_control_writeCell other value cpu here.1, keeps_writeCell cell value cpu here.2⟩

theorem gives_operate {cell : Cell} (other : Cell.instruction ≠ cell) (op : Isa.Operation) :
    Gives host (Here config c) (Micro.operate cell op) (fun _ => Here config c) C :=
  fun cpu here => ⟨keeps_control_operate other op cpu here.1, keeps_operate cell op cpu here.2⟩

theorem gives_readSource (source : Isa.Source) :
    Gives host (Here config c) (readSource source)
      (fun value next => value < wordCount config.wordBits ∧ Here config c next) C := by
  cases source
  case zero => exact fun cpu here => ⟨wordCount_pos _, here⟩
  case sum | sub | and | or | xor | stackptrAt => exact gives_evaluate _
  all_goals exact gives_readCell _

/-- A fetched word goes into the buffer. -/
theorem gives_writeInstruction {word : Nat} (lt : word < wordCount config.wordBits) :
    Gives host (Here config c) (writeCell .instruction word)
      (fun _ => Here config { c with instruction := word }) C := by
  rintro cpu ⟨rfl, fits⟩
  refine ⟨?_, keeps_writeCell .instruction word cpu fits⟩
  show (⟨wrap cpu.datapath.bits word, _, _, _, _, _⟩ : Control) = _
  rw [wrap_of_lt (fits.bits ▸ lt)]
  rfl

theorem test_eq (target : Isa.Target) : test host target = take host (Micro.test target) := by
  cases target <;> rfl

theorem mapM_test (targets : List Isa.Target) :
    targets.mapM (test host) = take host (targets.mapM Micro.test) := by
  induction targets with
  | nil => rfl
  | cons target rest ih =>
    rw [List.mapM_cons, List.mapM_cons, take_bind, test_eq, ih]
    refine congrArg (take host (Micro.test target) >>= ·) (funext fun result => ?_)
    rw [take_bind]
    rfl

/-- The tables have every target of a condition. -/
theorem conditionStep_eq : conditionStep host = take host Micro.conditionStep := by
  unfold conditionStep Micro.conditionStep
  rw [take_bind]
  refine congrArg (take host instruction >>= ·) (funext fun word => ?_)
  dsimp only
  rw [mapM_test, take_bind]
  refine congrArg (take host _ >>= ·) (funext fun results => ?_)
  generalize ((if (Isa.condition word).anyOf then results.any id else results.all id) !=
    (Isa.condition word).invert) = met
  cases met <;> rfl

theorem gives_tests {P : Cpu → Prop} (targets : List Isa.Target) :
    Gives host P (targets.mapM Micro.test) (fun _ _ => True) C := by
  have one {P : Cpu → Prop} (target : Isa.Target) :
      Gives host P (Micro.test target) (fun _ _ => True) C := by
    cases target <;> exact fun _ _ => trivial
  induction targets generalizing P with
  | nil => exact fun _ _ => trivial
  | cons target rest ih =>
    rw [List.mapM_cons]
    exact .bind (one target) fun _ => .bind ih fun _ _ _ => trivial

/-- A write that faults tells its address and the size of the memory. -/
theorem fault_of_writeMemory {address value : Nat} {cpu last : Cpu} {fault : Fault}
    (ran : (writeMemory address value).run cpu = .error fault last) :
    fault = .range address cpu.datapath.memory.size := by
  unfold EStateM.run writeMemory Datapath.writeMemory Memory.write at ran
  rw [Memory.cell_natCast] at ran
  by_cases inside : address < cpu.datapath.memory.size
  · rw [if_pos inside] at ran
    cases ran
  · rw [if_neg inside] at ran
    cases ran
    rfl

/-- The numbers that a micro-step shows. -/
abbrev shown (result : MicroState × List Message) : List Int := Message.numbersOf result.2

/-- A value that is delivered somewhere is shown. -/
theorem mem_numbersIn_deliver (source : Isa.Source) (value : Nat) (destination : Isa.Destination)
    (cpu : Cpu) :
    (value : Int) ∈ numbersIn shown ((deliver source value (some destination)).run cpu) := by
  cases destination <;> exact List.mem_cons_self

theorem gives_deliver {P : Cpu → Prop} (source : Isa.Source) {value : Nat}
    (writes : host.Writes [(value : Int)]) (destination : Isa.Destination) :
    Gives host P (deliver source value (some destination))
      (fun result _ => host.Writes (shown result)) C := by
  cases destination
  case out => exact fun _ _ => Host.writes_cons.2 ⟨(Host.writes_cons.1 writes).1, writes⟩
  all_goals exact fun _ _ => writes

theorem gives_instruction :
    Gives host (Here config c) instruction
      (fun word next => word = c.instruction ∧ Here config c next) C := by
  intro cpu here
  refine ⟨congrArg Control.instruction here.1, ?_⟩
  exact ⟨keeps_control_readCell .instruction cpu here.1, keeps_readCell .instruction cpu here.2⟩

theorem follows_conditionStep {P : Cpu → Prop} :
    Follows host P (conditionStep host) Micro.conditionStep shown C := by
  rw [conditionStep_eq]
  refine .take (.bind (Q := fun _ _ => True) (fun _ _ => trivial) fun word => ?_)
  refine .bind (gives_tests _) fun results => ?_
  dsimp only
  generalize ((if (Isa.condition word).anyOf then results.any id else results.all id) !=
    (Isa.condition word).invert) = met
  cases met <;> exact fun _ _ => Host.writes_nil

theorem follows_movementStep {P : Cpu → Prop} :
    Follows host P (movementStep host) Micro.movementStep shown C := by
  refine .take_bind (Q := fun _ _ => True) (fun _ _ => trivial) fun word => ?_
  rw [sourceOf_eq, pure_bind]
  exact .pure Host.writes_nil

section
variable (left : ∀ last, Here config c last → decimalCount host.digits ≤ wordCount config.wordBits →
  C last)
include left

/-- An access of the memory faults before it changes anything, and tells an address and a size. -/
theorem left_of_range {cpu : Cpu} (here : Here config c cpu) {address : Nat}
    (lt : address < wordCount config.wordBits)
    (unwritten : ¬host.Writes (Fault.range address cpu.datapath.memory.size).numbers) : C cpu := by
  refine left cpu here (lt_of_not_writes unwritten fun n member => ?_)
  rcases List.mem_cons.1 member with rfl | member
  · exact Nat.le_of_lt lt
  · cases List.mem_singleton.1 member
    show cpu.datapath.memory.size ≤ _
    rw [here.2.size]
    exact config.memorySize_le

theorem gives_readMemory {address : Nat} (lt : address < wordCount config.wordBits) :
    Gives host (Here config c) (readMemory address)
      (fun value next => value < wordCount config.wordBits ∧ Here config c next) C := by
  intro cpu here
  have shown := keeps_control_readMemory address cpu here.1
  have held := keeps_readMemory address cpu here.2
  unfold after EStateM.run readMemory Datapath.readMemory at shown held
  unfold EStateM.run readMemory Datapath.readMemory
  rw [Memory.read_natCast] at shown held ⊢
  by_cases inside : address < cpu.datapath.memory.size
  · rw [if_pos inside] at shown held ⊢
    exact ⟨here.2.bits ▸ here.2.memory.getD address, shown, held⟩
  · rw [if_neg inside]
    exact left_of_range left here lt

theorem gives_writeMemory {address : Nat} (lt : address < wordCount config.wordBits)
    (value : Nat) :
    Gives host (Here config c) (writeMemory address value) (fun _ => Here config c) C := by
  intro cpu here
  have shown := keeps_control_writeMemory address value cpu here.1
  have held := keeps_writeMemory address value cpu here.2
  unfold after EStateM.run writeMemory Datapath.writeMemory Memory.write at shown held
  unfold EStateM.run writeMemory Datapath.writeMemory Memory.write
  rw [Memory.cell_natCast] at shown held ⊢
  by_cases inside : address < cpu.datapath.memory.size
  · rw [if_pos inside] at shown held ⊢
    exact ⟨shown, held⟩
  · rw [if_neg inside]
    exact left_of_range left here lt

theorem gives_readOperand :
    Gives host (Here config c) readOperand
      (fun value next => value < wordCount config.wordBits ∧ Here config c next) C :=
  .bind (gives_readCell _) fun _ => .of_known fun lt => gives_readMemory left lt

/-- Numbers that are words, if one of them is not written. -/
theorem left_of_words (numbers : List Nat) (words : ∀ n ∈ numbers, n < wordCount config.wordBits)
    {cpu : Cpu} (here : Here config c cpu)
    (unwritten : ¬host.Writes (numbers.map fun (n : Nat) => (n : Int))) : C cpu := by
  refine left cpu here (lt_of_not_writes unwritten fun n member => ?_)
  obtain ⟨word, from_, rfl⟩ := List.mem_map.1 member
  exact Nat.le_of_lt (words word from_)

/-! ## Whole micro-steps -/

theorem follows_sourceOperandStep :
    Follows host (Here config c) (sourceOperandStep host) Micro.sourceOperandStep shown C := by
  refine .take_bind (gives_readOperand left) fun value => .of_known fun lt => ?_
  refine .take_bind (gives_writeCell (by decide) value) fun _ => ?_
  refine .write_bind (fun cpu here => left_of_words left [value] (by simpa using lt) here)
    (fun _ _ => List.Subset.refl _) fun writes => ?_
  exact .take_bind (gives_readCell .instruction) fun word => .pure writes

theorem follows_destinationOperandStep :
    Follows host (Here config c) (destinationOperandStep host) Micro.destinationOperandStep shown
      C := by
  refine .take_bind (gives_readOperand left) fun value => .of_known fun lt => ?_
  refine .take_bind (gives_writeCell (by decide) value) fun _ => ?_
  exact .write_bind (fun cpu here => left_of_words left [value] (by simpa using lt) here)
    (fun _ _ => List.Subset.refl _) fun writes => .pure writes

theorem follows_bufferFrom {address : Nat} (lt : address < wordCount config.wordBits) :
    Follows host (Here config c) (bufferFrom host address) (Micro.bufferFrom address) shown C := by
  refine .take_bind (gives_readMemory left lt) fun value => .of_known fun fits => ?_
  refine .take_bind (gives_writeCell (by decide) value) fun _ => ?_
  exact .write_bind
    (fun cpu here => left_of_words left [value, address] (by simpa using ⟨fits, lt⟩) here)
    (fun _ _ => List.Subset.refl _) fun writes => .pure writes

theorem follows_movementFetchStep :
    Follows host (Here config c) (movementFetchStep host) Micro.movementFetchStep shown C := by
  refine .take_bind (gives_readCell .instruction) fun word => .of_known fun _ => ?_
  rw [sourceOf_eq, pure_bind]
  cases Isa.source word
  case memAt | mem =>
    exact .take_bind (gives_readCell .m) fun _ => .of_known fun lt => follows_bufferFrom left lt
  case stackAt | stack =>
    exact .take_bind (gives_evaluate .stackRead) fun _ => .of_known fun lt =>
      follows_bufferFrom left lt
  all_goals exact .pure Host.writes_nil

theorem follows_flushTo {address : Nat} (lt : address < wordCount config.wordBits)
    (onStack : Bool) :
    Follows host (Here config c) (flushTo host address onStack) (Micro.flushTo address onStack)
      shown C := by
  refine .write_bind (fun cpu here => left_of_words left [address] (by simpa using lt) here)
    (fun cpu _ => ?_) fun first => ?_
  · -- The address is in the message of a write as well as in its fault.
    unfold Micro.flushTo
    rw [EStateM.run_bind]
    show _ ⊆ numbersIn shown (EStateM.run (_ >>= _) _)
    rw [EStateM.run_bind]
    cases ran : (writeMemory address (cpu.datapath.readCell .buffer).1).run
        { cpu with datapath := (cpu.datapath.readCell .buffer).2 } with
    | ok _ next => exact List.subset_cons_of_subset _ (List.Subset.refl _)
    | error fault last =>
      rw [fault_of_writeMemory ran]
      exact List.cons_subset_cons _ (List.nil_subset _)
  · refine .take_bind (gives_readCell .buffer) fun value => .of_known fun fits => ?_
    refine .take_bind (gives_writeMemory left lt value) fun _ => ?_
    refine .write_bind (fun cpu here => left_of_words left [value] (by simpa using fits) here)
      (fun _ _ => List.cons_subset_cons _ (List.nil_subset _)) fun second => .pure ?_
    exact Host.writes_cons.2 ⟨(Host.writes_cons.1 second).1, first⟩

theorem follows_movementFlushStep :
    Follows host (Here config c) (movementFlushStep host) Micro.movementFlushStep shown C := by
  refine .take_bind (gives_readCell .instruction) fun word => .of_known fun _ => ?_
  have onStack : Follows host (Here config c)
      (take host (evaluate .stackWrite) >>= fun address => flushTo host address true)
      (evaluate .stackWrite >>= fun address => Micro.flushTo address true) shown C :=
    .take_bind (gives_evaluate .stackWrite) fun _ => .of_known fun lt =>
      follows_flushTo left lt true
  cases Isa.destination? word with
  | none => exact onStack
  | some destination =>
    cases destination
    case memAt | mem =>
      exact .take_bind (gives_readCell .n) fun _ => .of_known fun lt =>
        follows_flushTo left lt false
    all_goals exact onStack

/-- A movement to some place shows its value. -/
theorem follows_movementMoveStep (assigned : (Isa.destination? c.instruction).isSome = true) :
    Follows host (Here config c) (movementMoveStep host) Micro.movementMoveStep shown C := by
  obtain ⟨destination, place⟩ := Option.isSome_iff_exists.1 assigned
  refine .take_bind gives_instruction fun word => .of_known fun same => ?_
  rw [sourceOf_eq, pure_bind]
  refine .take_bind (gives_readSource _) fun value => .of_known fun lt => ?_
  rw [same, place]
  refine .write_bind (fun cpu here => left_of_words left [value] (by simpa using lt) here)
    (fun cpu _ => ?_) fun writes => ?_
  · exact List.cons_subset.2 ⟨mem_numbersIn_deliver _ _ _ _, List.nil_subset _⟩
  · cases destination
    case out =>
      dsimp only
      rw [write_of_writes writes]
      exact .take (gives_deliver _ writes _)
    all_goals exact .take (gives_deliver _ writes _)

theorem follows_actionStep :
    Follows host (Here config c) (actionStep host) Micro.actionStep shown C := by
  refine .take_bind (gives_readCell .instruction) fun word => .of_known fun lt => ?_
  cases decoded : Isa.action? word with
  | none =>
    refine .get_bind fun now => .raise ?_
    rintro _ ⟨rfl, here⟩
    refine left_of_words left [word, now.pc] ?_ here
    have place : now.pc < wordCount config.wordBits := here.2.bits ▸ here.2.cell .pc
    simpa using ⟨lt, place⟩
  | some action =>
    cases action with
    | register op r =>
      have other : Cell.instruction ≠ .ofRegister r := by cases r <;> decide
      dsimp only
      rw [operandOf_eq decoded, pure_bind, operationOf_eq, pure_bind]
      exact .take_bind (gives_operate other op) fun _ => .pure Host.writes_nil
    | control control =>
      cases control with
      | pop => exact .take_bind (gives_operate (by decide) _) fun _ => .pure Host.writes_nil
      | done | pause | halt => exact .take fun _ _ => Host.writes_nil

/-- A fetch breaks off with the new word in the buffer, or faults there, if not before. -/
theorem follows_fetchStep
    (fetched : ∀ word skip last, (skip = true → c.skip = true) →
      Here config { c with instruction := word, skip := skip } last →
        decimalCount host.digits ≤ wordCount config.wordBits → C last) :
    Follows host (Here config c) (fetchStep host) Micro.fetchStep shown C := by
  refine .take_bind (gives_readCell .pc) fun address => .of_known fun known => ?_
  refine .take_bind (gives_readMemory left known) fun word => .of_known fun lt => ?_
  refine .take_bind (gives_writeInstruction lt) fun _ => .get_bind fun now => ?_
  have written (skip : Bool) (kept : skip = true → c.skip = true) {cpu : Cpu}
      (here : Here config { c with instruction := word, skip := skip } cpu)
      (unwritten : ¬host.Writes [(word : Int), (address : Int)]) : C cpu :=
    left_of_words (fetched word skip · kept) [word, address] (by simpa using ⟨lt, known⟩) here
      unwritten
  by_cases skip : now.skip = true
  · rw [if_pos skip, if_pos skip]
    refine .modify_bind (Q := Here config { c with instruction := word, skip := false }) ?_ ?_
    · rintro cpu ⟨-, here⟩
      exact ⟨congrArg (fun c : Control => { c with skip := false }) here.1, here.2⟩
    · refine .write_bind (fun _ here => written false nofun here) (fun _ _ => List.Subset.refl _)
        fun writes => ?_
      rw [countOperands_eq, pure_bind, element_skips, pure_bind]
      exact .pure writes
  · rw [if_neg skip, if_neg skip]
    have crashed (cpu : Cpu)
        (here : now = cpu ∧ Here config { c with instruction := word } cpu)
        (unwritten : ¬host.Writes [(word : Int), (address : Int)]) : C cpu :=
      written c.skip id here.2 unwritten
    cases decoded : Isa.kind? word with
    | none =>
      refine .raise ?_
      exact crashed
    | some kind =>
      cases kind with
      | movement =>
        cases place : Isa.destination? word with
        | none =>
          refine .raise ?_
          exact crashed
        | some destination =>
          exact .write_bind crashed (fun _ _ => List.Subset.refl _) fun writes => .pure writes
      | condition | action =>
        exact .write_bind crashed (fun _ _ => List.Subset.refl _) fun writes => .pure writes

end

end

/-- Micro-steps that neither look up nor write a number. -/
theorem follows_taken {P C : Cpu → Prop} {state : MicroState}
    (plain : step host state = take host (Micro.step state))
    (silent : Gives host P (Micro.step state) (fun result _ => shown result = []) C) :
    Follows host P (step host state) (Micro.step state) shown C := by
  rw [plain]
  refine .take (silent.mono fun result _ none => ?_)
  rw [none]
  exact Host.writes_nil

end Attempt

open Attempt

/-! ## Ticks -/

namespace Consistent

variable {host : Host} {config : Config} {cpu last : Cpu}

/-- A processor that a micro-step has left in its midst. -/
theorem of_control (consistent : cpu.Consistent config) {word : Nat} {skip : Bool}
    (same : last.control = { cpu.control with instruction := word, skip := skip })
    (fits : last.datapath.Fits config) (executes : cpu.state.Executes word)
    (kept : skip = true → cpu.skip = true) : last.Consistent config := by
  have state : last.state = cpu.state := congrArg Control.state same
  have running : last.running = cpu.running := congrArg Control.running same
  have failure : last.failure = cpu.failure := congrArg Control.failure same
  refine ⟨fits, ?_, ?_, fun skips => ?_, ?_, ?_⟩
  · have outputs : last.outputs = cpu.outputs := congrArg Control.outputs same
    rw [outputs]
    exact consistent.outputs
  · have buffered : last.datapath.cells.instruction = word := congrArg Control.instruction same
    rw [state, buffered]
    exact executes
  · have pending : last.skip = skip := congrArg Control.skip same
    rw [state, failure]
    exact consistent.skip (kept (pending ▸ skips))
  · rw [state, running]
    exact consistent.halted
  · rw [state, running, failure]
    exact consistent.failure

/-- A processor that is left by a micro-step which has broken off is consistent, and has words that
    are too large to be written. -/
abbrev Left (host : Host) (config : Config) (last : Cpu) : Prop :=
  last.Consistent config ∧ decimalCount host.digits ≤ wordCount config.wordBits

/-- The micro-step of a consistent processor, on a host. -/
theorem follows_step (consistent : cpu.Consistent config) :
    Follows host (Here config cpu.control) (Attempt.step host cpu.state) (Micro.step cpu.state)
      shown (Left host config) := by
  have left (last : Cpu) (here : Here config cpu.control last)
      (large : decimalCount host.digits ≤ wordCount config.wordBits) : Left host config last :=
    ⟨consistent.of_control here.1 here.2 consistent.executes id, large⟩
  have executes := consistent.executes
  cases state : cpu.state with
  | fetch =>
    refine follows_fetchStep left fun word skip last kept here large => ⟨?_, large⟩
    refine consistent.of_control here.1 here.2 ?_ kept
    rw [state]
    exact MicroState.executes_of_idle (by decide) (by decide) rfl word
  | condition => exact follows_conditionStep
  | action => exact follows_actionStep left
  | movement => exact follows_movementStep
  | sourceOperandLoad => exact follows_sourceOperandStep left
  | destinationOperandLoad => exact follows_destinationOperandStep left
  | movementFetch => exact follows_movementFetchStep left
  | movementMove =>
    rw [state] at executes
    exact follows_movementMoveStep left (executes.2.2 rfl).2
  | movementFlush => exact follows_movementFlushStep left
  | reset | skipTwo | skipOne | done | pause | halted | sourceOperand | destinationOperand
  | finish => exact follows_taken rfl fun _ _ => rfl

end Consistent

/-- How a tick ends on a host: as it does anywhere, if all numbers in what it reports are written,
    and else in the midst of its micro-step, which takes words too large for the host. -/
inductive TicksOn (host : Host) (config : Config) (cpu : Cpu) :
    EStateM.Result Crash Cpu (List Message) → Prop where
  | ends (writes : host.Writes (Message.numbersOf cpu.tick.2)) :
      TicksOn host config cpu (.ok cpu.tick.2 cpu.tick.1)
  | breaks {last : Cpu} (unwritten : ¬host.Writes (Message.numbersOf cpu.tick.2))
      (large : decimalCount host.digits ≤ wordCount config.wordBits)
      (left : last.Consistent config) :
      TicksOn host config cpu (.error (.digits host.digits) last)

section
variable {host : Host} {config : Config} {cpu : Cpu}

/-- On a host, a consistent processor ticks as it does anywhere or breaks off at a number. -/
theorem Consistent.ticksOn (consistent : cpu.Consistent config) :
    TicksOn host config cpu (cpu.attempt host) := by
  cases running : cpu.running with
  | false =>
    have stays : cpu.attempt host = .ok cpu.tick.2 cpu.tick.1 := by
      rw [tick_of_stopped running]
      unfold attempt
      rw [running]
      rfl
    rw [stays]
    refine .ends ?_
    rw [tick_of_stopped running]
    exact Host.writes_nil
  | true =>
    have followed : Ends host (outcome ((Micro.step cpu.state).run cpu.clearMarks))
        (numbersIn shown ((Micro.step cpu.state).run cpu.clearMarks)) (Left host config)
        ((Attempt.step host cpu.state).run cpu.clearMarks) :=
      consistent.follows_step cpu.clearMarks ⟨rfl, consistent.fits.clearMarks⟩
    have numbers : numbersIn shown ((Micro.step cpu.state).run cpu.clearMarks) =
        Message.numbersOf cpu.tick.2 := by
      unfold Cpu.tick
      rw [running]
      cases (Micro.step cpu.state).run cpu.clearMarks with
      | ok result next => rfl
      | error fault next => exact (List.append_nil _).symm
    rw [numbers] at followed
    generalize ran : (Attempt.step host cpu.state).run cpu.clearMarks = result at followed
    cases followed with
    | whole writes =>
      have ends : cpu.attempt host = .ok cpu.tick.2 cpu.tick.1 := by
        unfold attempt Cpu.tick
        rw [ran, running]
        cases (Micro.step cpu.state).run cpu.clearMarks with
        | ok result next => rfl
        | error fault next => rfl
      rw [ends]
      exact .ends writes
    | @breaks last unwritten left =>
      have breaks : cpu.attempt host = .error (.digits host.digits) last := by
        unfold attempt
        rw [ran, running]
        rfl
      rw [breaks]
      exact .breaks unwritten left.2 left.1

/-- The processors that loads, resets, ticks, resumptions and memory writes lead to on a host, with
    those that a tick leaves in its midst. -/
inductive Attained (host : Host) (config : Config) : Cpu → Prop where
  | initial : Attained host config (.initial config)
  | load {cpu next : Cpu} {words : List Int} :
      Attained host config cpu → cpu.load words = .ok next → Attained host config next
  | reset {cpu : Cpu} : Attained host config cpu → Attained host config cpu.reset
  | tick {cpu next : Cpu} {messages : List Message} :
      Attained host config cpu → cpu.attempt host = .ok messages next → Attained host config next
  | crash {cpu last : Cpu} {crash : Crash} :
      Attained host config cpu → cpu.attempt host = .error crash last → Attained host config last
  | resume {cpu : Cpu} : Attained host config cpu → Attained host config cpu.resume
  | write {cpu : Cpu} {datapath : Datapath} {address value : Int} :
      Attained host config cpu → cpu.datapath.writeMemory address value = .ok datapath →
        Attained host config { cpu with datapath := datapath }

/-- Every processor attained on a host is consistent. -/
theorem Attained.consistent (attained : cpu.Attained host config) : cpu.Consistent config := by
  induction attained with
  | initial => exact .initial config
  | load _ loaded before => exact before.load loaded
  | reset _ before => exact before.reset
  | tick _ ticked before =>
    have ticks : TicksOn host config _ _ := before.ticksOn
    rw [ticked] at ticks
    cases ticks
    exact before.tick
  | crash _ crashed before =>
    have ticks : TicksOn host config _ _ := before.ticksOn
    rw [crashed] at ticks
    cases ticks with
    | breaks _ _ left => exact left
  | resume _ before => exact before.resume
  | write _ written before =>
    exact before.setDatapath (before.fits.writeMemory written) (Datapath.cells_writeMemory written)

/-- A tick whose numbers are written is the tick anywhere. -/
theorem TicksOn.eq_of_writes {result : EStateM.Result Crash Cpu (List Message)}
    (ticks : TicksOn host config cpu result)
    (writes : host.Writes (Message.numbersOf cpu.tick.2)) : result = .ok cpu.tick.2 cpu.tick.1 := by
  cases ticks with
  | ends => rfl
  | breaks unwritten => exact absurd writes unwritten

/-- A tick with a number that is not written breaks off. -/
theorem TicksOn.eq_of_not_writes {result : EStateM.Result Crash Cpu (List Message)}
    (ticks : TicksOn host config cpu result)
    (unwritten : ¬host.Writes (Message.numbersOf cpu.tick.2)) :
    ∃ last, result = .error (.digits host.digits) last ∧ last.Consistent config := by
  cases ticks with
  | ends writes => exact absurd writes unwritten
  | breaks _ _ left => exact ⟨_, rfl, left⟩

/-- Whatever has been loaded, written, reset and resumed between its ticks, and wherever one of them
    has broken off, a processor is consistent. Its next tick breaks off at no lookup, and only at a
    number if at all; where every word is written, it does not. -/
theorem attempt_of_attained (attained : cpu.Attained host config) :
    cpu.Consistent config ∧ TicksOn host config cpu (cpu.attempt host) ∧
      (wordCount config.wordBits < decimalCount host.digits →
        cpu.attempt host = .ok cpu.tick.2 cpu.tick.1) := by
  have consistent := attained.consistent
  refine ⟨consistent, consistent.ticksOn, fun small => ?_⟩
  have ticks : TicksOn host config cpu (cpu.attempt host) := consistent.ticksOn
  generalize cpu.attempt host = result at ticks
  cases ticks with
  | ends => rfl
  | breaks _ large => exact absurd small (Nat.not_lt.2 large)

end

/-- Words of so many bits have more digits than are usually written. -/
def wide : Config :=
  { Config.standard with
    wordBits := 14400
    nine_le_wordBits := by decide
    memorySize_le := by decide +kernel }

/-- A wide word is fetched in vain: the tick breaks off, and a reset is what the processor comes
    back by. -/
theorem attempt_of_attained_wide :
    ∃ cpu, (Cpu.initial wide).load [-1] = .ok cpu ∧ ∃ last,
      cpu.reset.tick.1.attempt .usual = .error (.digits 4300) last ∧ last.Consistent wide ∧
        last.reset.attempt .usual = .ok [.reset] last.reset.tick.1 := by
  have runs : ((Cpu.initial wide).load [-1]).toOption.map (fun cpu =>
      decide (Host.usual.Writes (Message.numbersOf cpu.reset.tick.1.tick.2))) = some false := by
    decide +kernel
  cases loaded : (Cpu.initial wide).load [-1] with
  | error fault =>
    rw [loaded] at runs
    cases runs
  | ok cpu =>
    rw [loaded] at runs
    have unwritten := of_decide_eq_false (Option.some.inj runs)
    have start : cpu.reset.Attained .usual wide := .reset (.load .initial loaded)
    have first : cpu.reset.tick.1.Attained .usual wide :=
      .tick start ((attempt_of_attained start).2.1.eq_of_writes Host.writes_nil)
    obtain ⟨last, breaks, left⟩ := (attempt_of_attained first).2.1.eq_of_not_writes unwritten
    have again : last.reset.Attained .usual wide := .reset (.crash first breaks)
    exact ⟨cpu, rfl, last, breaks, left,
      (attempt_of_attained again).2.1.eq_of_writes Host.writes_nil⟩

end Cpu

end NineBit.Machine

import NineBit.Machine.Cpu

/-!
# Instructions as a program sees them

A program sees registers, memory, flags and what has been written to `out`; it sees no micro-states,
no instruction buffer and no memory buffer. `Architecture` is what it sees, and `Exec.step` is one
whole instruction on it: the word that the program counter shows is decoded, the operand words are
read into M and then into N, the source is read and the destination written. A fault ends the
instruction with whatever was done before it (`Exec.result`).
-/

namespace NineBit.Machine

/-- What a program sees of the machine. -/
structure Architecture where
  /-- The width of a word. -/
  bits : Nat
  a : Nat
  b : Nat
  c : Nat
  d : Nat
  m : Nat
  n : Nat
  pc : Nat
  sp : Nat
  memory : Memory
  outputs : Array Nat
  carry : Bool
  zero : Bool
  /-- The next instruction is to be skipped. -/
  skip : Bool
  /-- The micro-state that the machine has stopped in; none while it runs. -/
  stopped : Option MicroState
  fault : Option Fault
  deriving Repr, DecidableEq

namespace Architecture

/-- The word of a general register. -/
def register (x : Architecture) : Isa.Register → Nat
  | .a => x.a
  | .b => x.b
  | .c => x.c
  | .d => x.d

/-- A general register changed. -/
def setRegister (x : Architecture) (r : Isa.Register) (word : Nat) : Architecture :=
  match r with
  | .a => { x with a := word }
  | .b => { x with b := word }
  | .c => { x with c := word }
  | .d => { x with d := word }

/-- The value of a condition's target. -/
def test (x : Architecture) : Isa.Target → Bool
  | .zeroFlag => x.zero
  | .carryFlag => x.carry
  | .a => x.a == 0
  | .b => x.b == 0
  | .c => x.c == 0

/-- The condition is met: all or any of its targets hold, or the opposite if it is inverted. -/
def meets (x : Architecture) (condition : Isa.Condition) : Bool :=
  (if condition.anyOf then condition.targets.any x.test else condition.targets.all x.test) !=
    condition.invert

/-- Stopped by a fault. -/
def fail (x : Architecture) (fault : Fault) : Architecture :=
  { x with stopped := some .halted, fault := some fault }

end Architecture

/-- A part of an instruction, which may fault. -/
abbrev Exec := EStateM Fault Architecture

namespace Exec

/-- The machine after a part of an instruction; a fault stops it. -/
def result {α : Type} (e : Exec α) (x : Architecture) : Architecture :=
  match e.run x with
  | .ok _ y => y
  | .error fault y => y.fail fault

/-- Moves the program counter on. -/
def advance (count : Nat) : Exec Unit :=
  modify fun x => { x with pc := (x.pc + count) % wordCount x.bits }

/-- Reads a memory cell. -/
def load (address : Nat) : Exec Nat := fun x =>
  match x.memory.read address with
  | .ok word => .ok word x
  | .error fault => .error fault x

/-- Writes a memory cell. -/
def store (address word : Nat) : Exec Unit := fun x =>
  match x.memory.write address word with
  | .ok memory => .ok () { x with memory := memory }
  | .error fault => .error fault x

/-- Makes a word of an integer. The carry flag tells that the integer was no word, the zero flag
    that the word is zero. -/
def compute (value : Architecture → Int) : Exec Nat :=
  modifyGet fun x =>
    let word := wrap x.bits (value x)
    (word, { x with
      carry := decide (value x < 0) || decide ((wordCount x.bits : Int) ≤ value x)
      zero := word == 0 })

/-- The address of a word on the stack at an index. -/
def stackAddress (index : Architecture → Nat) : Exec Nat := compute fun x => x.sp + index x

/-- The value of a source. -/
def value : Isa.Source → Exec Nat
  | .zero => return 0
  | .sum => compute fun x => x.a + x.b
  | .sub => compute fun x => x.a - x.b
  | .and => compute fun x => (x.a.land x.b : Nat)
  | .or => compute fun x => (x.a.lor x.b : Nat)
  | .xor => compute fun x => (x.a.xor x.b : Nat)
  | .memAt | .mem => do load (← get).m
  | .stackAt | .stack => do load (← stackAddress Architecture.m)
  | .a => return (← get).a
  | .b => return (← get).b
  | .c => return (← get).c
  | .d => return (← get).d
  | .stackptrAt => stackAddress Architecture.m
  | .literal => return (← get).m

/-- Puts a word into a destination. -/
def deliver (word : Nat) : Isa.Destination → Exec Unit
  | .nul => return
  | .memAt | .mem => do store (← get).n word
  | .stackAt | .stack => do store (← stackAddress Architecture.n) word
  | .push => do
    modify fun x => { x with sp := wrap x.bits (x.sp - 1), n := 0 }
    store (← stackAddress Architecture.n) word
  | .a => modify fun x => { x with a := word }
  | .b => modify fun x => { x with b := word }
  | .c => modify fun x => { x with c := word }
  | .d => modify fun x => { x with d := word }
  | .m => modify fun x => { x with m := word }
  | .n => modify fun x => { x with n := word }
  | .pc => modify fun x => { x with pc := word }
  | .out => modify fun x => { x with outputs := x.outputs.push word }

/-- Puts a word into a destination and goes on behind the instruction, unless that is a jump. -/
def put (word : Nat) (destination : Isa.Destination) : Exec Unit := do
  deliver word destination
  if destination = .pc then return else advance 1

/-- Moves the value of a source to a destination. -/
def move (source : Isa.Source) (destination : Isa.Destination) : Exec Unit := do
  put (← value source) destination

/-- Reads the next word of the program into M. -/
def operandM : Exec Unit := do
  let word ← load (← get).pc
  modify fun x => { x with m := word }

/-- Reads the next word of the program into N. -/
def operandN : Exec Unit := do
  let word ← load (← get).pc
  modify fun x => { x with n := word }

/-- What is left of a movement after its source operand. -/
def moveFromN (source : Isa.Source) (destination : Isa.Destination) : Exec Unit := do
  if destination.takesWord then
    advance 1
    operandN
  move source destination

/-- A movement with its operands. -/
def movement (source : Isa.Source) (destination : Isa.Destination) : Exec Unit := do
  if source.takesWord then
    advance 1
    operandM
  moveFromN source destination

/-- Tests a condition; one that is not met makes the next instruction a skipped one. -/
def condition (c : Isa.Condition) : Exec Unit := do
  modify fun x => { x with skip := x.skip || !x.meets c }
  advance 1

/-- Stops in a micro-state. -/
def stop (state : MicroState) : Exec Unit := modify fun x => { x with stopped := some state }

/-- Performs an action. -/
def action : Isa.Action → Exec Unit
  | .register op r => do
    modify fun x => x.setRegister r (operate x.bits op (x.register r))
    advance 1
  | .control .pop => do
    modify fun x => { x with sp := wrap x.bits (x.sp + 1) }
    advance 1
  | .control .done => stop .done
  | .control .pause => stop .pause
  | .control .halt => stop .halted

/-- Executes an instruction. -/
def execute : Isa.Opcode → Exec Unit
  | .movement source destination => movement source destination
  | .condition c => condition c
  | .action x => action x

/-- Fetches a word and executes the instruction that it stands for; a skipped one is only
    measured. -/
def step : Exec Unit := do
  let x ← get
  let word ← load x.pc
  if x.skip then
    modify fun x => { x with skip := false }
    advance (1 + Isa.operandCount word)
  else
    match Isa.Opcode.ofWord? word with
    | some opcode => execute opcode
    | none =>
      throw (if Isa.kind? word = some .action then .noAction word x.pc
        else .noInstruction word x.pc)

/-! ## Equations -/

theorem result_bind {α β : Type} (e : Exec α) (f : α → Exec β) (x : Architecture) :
    (e >>= f).result x =
      match e.run x with
      | .ok a y => (f a).result y
      | .error fault y => y.fail fault := by
  unfold result
  rw [EStateM.run_bind]
  cases e.run x <;> rfl

theorem result_bind_ok {α β : Type} {e : Exec α} {a : α} {x y : Architecture}
    (ran : e.run x = .ok a y) (f : α → Exec β) : (e >>= f).result x = (f a).result y := by
  rw [result_bind, ran]

theorem run_bind_ok {α β : Type} {e : Exec α} {a : α} {x y : Architecture} (ran : e.run x = .ok a y)
    (f : α → Exec β) : (e >>= f).run x = (f a).run y := by
  rw [EStateM.run_bind, ran]

theorem advance_result (count : Nat) (x : Architecture) :
    (advance count).result x = { x with pc := (x.pc + count) % wordCount x.bits } := rfl

/-- Moving the program counter on twice. -/
theorem advance_advance (first second : Nat) (x : Architecture) :
    (advance second).result ((advance first).result x) = (advance (first + second)).result x := by
  show { x with pc := ((x.pc + first) % wordCount x.bits + second) % wordCount x.bits } = _
  rw [Nat.mod_add_mod, Nat.add_assoc]
  rfl

section
variable {x : Architecture} {address word : Nat} {fault : Fault}

theorem run_load_ok (read : x.memory.read address = .ok word) :
    (load address).run x = .ok word x := by
  unfold EStateM.run load
  rw [read]

theorem run_load_error (read : x.memory.read address = .error fault) :
    (load address).run x = .error fault x := by
  unfold EStateM.run load
  rw [read]

theorem run_store_ok {memory : Memory} (written : x.memory.write address word = .ok memory) :
    (store address word).run x = .ok () { x with memory := memory } := by
  unfold EStateM.run store
  rw [written]

theorem run_store_error (written : x.memory.write address word = .error fault) :
    (store address word).run x = .error fault x := by
  unfold EStateM.run store
  rw [written]

theorem run_operandM_ok (read : x.memory.read x.pc = .ok word) :
    operandM.run x = .ok () { x with m := word } := by
  unfold operandM
  simp only [EStateM.run_bind, EStateM.run_get, run_load_ok read, EStateM.run_modify]

theorem run_operandM_error (read : x.memory.read x.pc = .error fault) :
    operandM.run x = .error fault x := by
  unfold operandM
  simp only [EStateM.run_bind, EStateM.run_get, run_load_error read]

theorem run_operandN_ok (read : x.memory.read x.pc = .ok word) :
    operandN.run x = .ok () { x with n := word } := by
  unfold operandN
  simp only [EStateM.run_bind, EStateM.run_get, run_load_ok read, EStateM.run_modify]

theorem run_operandN_error (read : x.memory.read x.pc = .error fault) :
    operandN.run x = .error fault x := by
  unfold operandN
  simp only [EStateM.run_bind, EStateM.run_get, run_load_error read]

theorem moveFromN_of_word {source : Isa.Source} {destination : Isa.Destination}
    (takes : destination.takesWord = true) :
    moveFromN source destination = (do advance 1; operandN; move source destination) := by
  unfold moveFromN
  rw [if_pos takes]

theorem moveFromN_of_not {source : Isa.Source} {destination : Isa.Destination}
    (takes : destination.takesWord = false) :
    moveFromN source destination = move source destination := by
  unfold moveFromN
  rw [if_neg (by rw [takes]; decide)]

theorem movement_of_word {source : Isa.Source} {destination : Isa.Destination}
    (takes : source.takesWord = true) :
    movement source destination =
      (do advance 1; operandM; moveFromN source destination) := by
  unfold movement
  rw [if_pos takes]

theorem movement_of_not {source : Isa.Source} {destination : Isa.Destination}
    (takes : source.takesWord = false) :
    movement source destination = moveFromN source destination := by
  unfold movement
  rw [if_neg (by rw [takes]; decide)]

/-- A word that is put anywhere but into the program counter is delivered, and the program counter
    moves on. -/
theorem put_result {word : Nat} {destination : Isa.Destination} {y : Architecture}
    (delivered : (deliver word destination).run x = .ok () y) (jump : destination ≠ .pc) :
    (put word destination).result x = (advance 1).result y := by
  unfold put
  rw [result_bind, delivered]
  simp only [if_neg jump]

theorem step_of_error (read : x.memory.read x.pc = .error fault) :
    step.result x = x.fail fault := by
  unfold step result
  simp only [EStateM.run_bind, EStateM.run_get, run_load_error read]

theorem step_of_skip (read : x.memory.read x.pc = .ok word) (skip : x.skip = true) :
    step.result x =
      (advance (1 + Isa.operandCount word)).result { x with skip := false } := by
  unfold step result
  simp only [EStateM.run_bind, EStateM.run_get, run_load_ok read, skip, if_true,
    EStateM.run_modify]

theorem step_of_opcode {opcode : Isa.Opcode} (read : x.memory.read x.pc = .ok word)
    (skip : x.skip = false) (decoded : Isa.Opcode.ofWord? word = some opcode) :
    step.result x = (execute opcode).result x := by
  unfold step result
  simp only [EStateM.run_bind, EStateM.run_get, run_load_ok read, skip, decoded,
    Bool.false_eq_true, if_false]

theorem step_of_none (read : x.memory.read x.pc = .ok word) (skip : x.skip = false)
    (undecoded : Isa.Opcode.ofWord? word = none) :
    step.result x =
      x.fail (if Isa.kind? word = some .action then .noAction word x.pc
        else .noInstruction word x.pc) := by
  unfold step result
  simp only [EStateM.run_bind, EStateM.run_get, run_load_ok read, skip, undecoded,
    Bool.false_eq_true, if_false, EStateM.run_throw]

end

/-! ## Flags -/

/-- The part of an instruction leaves the flags alone. -/
def Quiet {α : Type} (e : Exec α) : Prop :=
  ∀ x, match e.run x with
    | .ok _ y => y.carry = x.carry ∧ y.zero = x.zero
    | .error _ y => y.carry = x.carry ∧ y.zero = x.zero

namespace Quiet

variable {α β : Type}

theorem pure (a : α) : Quiet (Pure.pure a) := fun _ => ⟨rfl, rfl⟩

theorem get : Quiet (MonadState.get : Exec Architecture) := fun _ => ⟨rfl, rfl⟩

theorem throw (fault : Fault) : Quiet (MonadExcept.throw fault : Exec α) := fun _ => ⟨rfl, rfl⟩

theorem modify {f : Architecture → Architecture}
    (same : ∀ x, (f x).carry = x.carry ∧ (f x).zero = x.zero) : Quiet (modify f) := same

theorem bind {e : Exec α} {f : α → Exec β} (first : Quiet e) (rest : ∀ a, Quiet (f a)) :
    Quiet (e >>= f) := by
  intro x
  have before := first x
  rw [EStateM.run_bind]
  cases ran : e.run x with
  | ok a y =>
    rw [ran] at before
    have after := rest a y
    simp only at before after ⊢
    rw [before.1, before.2] at after
    exact after
  | error fault y =>
    rw [ran] at before
    exact before

theorem load (address : Nat) : Quiet (load address) := by
  intro x
  cases read : x.memory.read address with
  | ok word =>
    rw [run_load_ok read]
    exact ⟨rfl, rfl⟩
  | error fault =>
    rw [run_load_error read]
    exact ⟨rfl, rfl⟩

theorem store (address word : Nat) : Quiet (store address word) := by
  intro x
  cases written : x.memory.write address word with
  | ok memory =>
    rw [run_store_ok written]
    exact ⟨rfl, rfl⟩
  | error fault =>
    rw [run_store_error written]
    exact ⟨rfl, rfl⟩

theorem advance (count : Nat) : Quiet (advance count) := fun _ => ⟨rfl, rfl⟩

theorem result {e : Exec α} (quiet : Quiet e) (x : Architecture) :
    (e.result x).carry = x.carry ∧ (e.result x).zero = x.zero := by
  have same := quiet x
  unfold Exec.result
  cases ran : e.run x with
  | ok a y =>
    rw [ran] at same
    exact same
  | error fault y =>
    rw [ran] at same
    exact same

end Quiet

/-- The source is computed by a combinator, or its address is. -/
def computed : Isa.Source → Bool
  | .sum | .sub | .and | .or | .xor | .stackAt | .stack | .stackptrAt => true
  | _ => false

/-- The address of the destination is computed by a combinator. -/
def stacked : Isa.Destination → Bool
  | .stackAt | .stack | .push => true
  | _ => false

/-- The instruction uses a combinator. -/
def computes : Isa.Opcode → Bool
  | .movement source destination => computed source || stacked destination
  | _ => false

theorem quiet_value {source : Isa.Source} (plain : computed source = false) :
    Quiet (value source) := by
  cases source
  case zero => exact .pure _
  case memAt | mem => exact .bind .get fun _ => .load _
  case a | b | c | d | literal => exact .bind .get fun _ => .pure _
  all_goals cases plain

theorem quiet_deliver {destination : Isa.Destination} (plain : stacked destination = false)
    (word : Nat) : Quiet (deliver word destination) := by
  cases destination
  case nul => exact .pure _
  case memAt | mem => exact .bind .get fun _ => .store _ _
  case stackAt | stack | push => cases plain
  all_goals exact .modify fun _ => ⟨rfl, rfl⟩

theorem quiet_move {source : Isa.Source} {destination : Isa.Destination}
    (plain : computed source = false) (direct : stacked destination = false) :
    Quiet (move source destination) := by
  refine .bind (quiet_value plain) fun word => .bind (quiet_deliver direct word) fun _ => ?_
  split
  · exact .pure _
  · exact .advance 1

theorem quiet_operandM : Quiet operandM :=
  .bind .get fun _ => .bind (.load _) fun _ => .modify fun _ => ⟨rfl, rfl⟩

theorem quiet_operandN : Quiet operandN :=
  .bind .get fun _ => .bind (.load _) fun _ => .modify fun _ => ⟨rfl, rfl⟩

theorem quiet_movement {source : Isa.Source} {destination : Isa.Destination}
    (plain : computed source = false) (direct : stacked destination = false) :
    Quiet (movement source destination) := by
  have rest : Quiet (moveFromN source destination) := by
    cases takes : destination.takesWord with
    | true =>
      rw [moveFromN_of_word takes]
      exact .bind (.advance 1) fun _ => .bind quiet_operandN fun _ => quiet_move plain direct
    | false =>
      rw [moveFromN_of_not takes]
      exact quiet_move plain direct
  cases takes : source.takesWord with
  | true =>
    rw [movement_of_word takes]
    exact .bind (.advance 1) fun _ => .bind quiet_operandM fun _ => rest
  | false =>
    rw [movement_of_not takes]
    exact rest

/-- An instruction that uses no combinator leaves the flags alone. -/
theorem quiet_execute {opcode : Isa.Opcode} (plain : computes opcode = false) :
    Quiet (execute opcode) := by
  cases opcode with
  | movement source destination =>
    obtain ⟨direct, inline⟩ := Bool.or_eq_false_iff.1 plain
    exact quiet_movement direct inline
  | condition c => exact .bind (.modify fun _ => ⟨rfl, rfl⟩) fun _ => .advance 1
  | action x =>
    cases x with
    | register op r =>
      refine .bind (.modify fun _ => ?_) fun _ => .advance 1
      cases r <;> exact ⟨rfl, rfl⟩
    | control c =>
      cases c with
      | pop => exact .bind (.modify fun _ => ⟨rfl, rfl⟩) fun _ => .advance 1
      | _ => exact .modify fun _ => ⟨rfl, rfl⟩

/-- The flags after an instruction are those before it, unless an instruction that uses a combinator
    was executed. -/
theorem step_flags (x : Architecture) (changes : (step.result x).carry ≠ x.carry ∨
      (step.result x).zero ≠ x.zero) :
    x.skip = false ∧ ∃ word opcode, x.memory.read x.pc = .ok word ∧
      Isa.Opcode.ofWord? word = some opcode ∧ computes opcode = true := by
  cases read : x.memory.read x.pc with
  | error fault =>
    rw [step_of_error read] at changes
    simp only [Architecture.fail, ne_eq, not_true, or_self] at changes
  | ok word =>
    cases skip : x.skip with
    | true =>
      rw [step_of_skip read skip] at changes
      simp only [advance_result, ne_eq, not_true, or_self] at changes
    | false =>
      cases decoded : Isa.Opcode.ofWord? word with
      | none =>
        rw [step_of_none read skip decoded] at changes
        simp only [Architecture.fail, ne_eq, not_true, or_self] at changes
      | some opcode =>
        refine ⟨rfl, word, opcode, rfl, decoded, ?_⟩
        rw [step_of_opcode read skip decoded] at changes
        cases plain : computes opcode with
        | true => rfl
        | false =>
          obtain ⟨carry, zero⟩ := (quiet_execute plain).result x
          rcases changes with changed | changed
          · exact absurd carry changed
          · exact absurd zero changed

end Exec

end NineBit.Machine

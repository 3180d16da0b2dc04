import NineBit.Isa.Opcode
import NineBit.WordCount

/-!
# Instructions and their words

The word of an instruction has nine bits (`Opcode.word_lt`), and reading it gives the instruction
back (`Opcode.ofWord?_word`). Only a condition may come back in another form: its targets come in
the order of their bits, each once (`Condition.Same`).
-/

namespace NineBit.Isa

namespace Condition

theorem foldl_bits_lt (targets : List Target) : ∀ bits < 32,
    targets.foldl (fun bits t => bits ||| t.bit) bits < 32 := by
  induction targets with
  | nil => exact fun _ lt => lt
  | cons target rest ih =>
    intro bits lt
    have bit : target.bit < 2 ^ 5 := by cases target <;> decide
    exact ih _ (Nat.or_lt_two_pow (n := 5) lt bit)

theorem targetBits_lt (targets : List Target) : targetBits targets < 32 :=
  foldl_bits_lt targets 0 (by decide)

theorem code_lt (c : Condition) : c.code < 128 := by
  have targets := targetBits_lt c.targets
  unfold code
  split <;> split <;> omega

theorem testBit_foldl_bits (targets : List Target) (i : Nat) : ∀ bits : Nat,
    (targets.foldl (fun bits t => bits ||| t.bit) bits).testBit i =
      (bits.testBit i || targets.any fun t => t.bit.testBit i) := by
  induction targets with
  | nil => exact fun _ => (Bool.or_false _).symm
  | cons target rest ih =>
    intro bits
    rw [List.foldl_cons, ih, Nat.testBit_or, Bool.or_assoc, List.any_cons]

/-- Two conditions that test the same targets in the same way. -/
structure Same (c other : Condition) : Prop where
  invert : c.invert = other.invert
  anyOf : c.anyOf = other.anyOf
  targets : ∀ t, t ∈ c.targets ↔ t ∈ other.targets

/-- The place of a target's bit. -/
def place : Target → Nat
  | .zeroFlag => 4
  | .carryFlag => 3
  | .a => 2
  | .b => 1
  | .c => 0

theorem testBit_bit (t other : Target) : t.bit.testBit (place other) = decide (t = other) := by
  cases t <;> cases other <;> decide

/-- A target's bit is set just when the condition tests the target. -/
theorem testBit_targetBits (targets : List Target) (t : Target) :
    (targetBits targets).testBit (place t) = decide (t ∈ targets) := by
  unfold targetBits
  rw [testBit_foldl_bits, Nat.zero_testBit, Bool.false_or, Bool.eq_iff_iff, List.any_eq_true,
    decide_eq_true_iff]
  constructor
  · rintro ⟨other, member, same⟩
    rw [testBit_bit, decide_eq_true_iff] at same
    exact same ▸ member
  · intro member
    exact ⟨t, member, by rw [testBit_bit, decide_eq_true_iff]⟩

/-- A target is read where its bit is set, whatever the bits above those of the targets. -/
theorem mem_ofCode (high targets : Nat) (t : Target) :
    t ∈ (ofCode (high * 32 + targets)).targets ↔ targets.testBit (place t) = true := by
  have all : t ∈ Target.all := by cases t <;> decide
  have same : (high * 32 + targets) / t.bit % 2 = targets / t.bit % 2 := by
    cases t
    all_goals
      simp only [Target.bit]
      omega
  have bit : t.bit = 2 ^ place t := by cases t <;> rfl
  show t ∈ Target.all.filter (fun t => (high * 32 + targets) / t.bit % 2 == 1) ↔ _
  rw [List.mem_filter, same, Nat.testBit_eq_decide_div_mod_eq, decide_eq_true_iff, bit,
    beq_iff_eq, and_iff_right all]

/-- Reading the word of a condition gives the condition back. -/
theorem ofCode_code (c : Condition) : (ofCode (128 + c.code)).Same c := by
  have small := targetBits_lt c.targets
  have split : 128 + c.code =
      (4 + (if c.anyOf then 2 else 0) + if c.invert then 1 else 0) * 32 + targetBits c.targets := by
    unfold code
    split <;> split <;> omega
  refine ⟨?_, ?_, fun t => ?_⟩
  · show ((128 + c.code) / 32 % 2 == 1) = c.invert
    rw [split]
    cases c.anyOf <;> cases c.invert <;> grind
  · show ((128 + c.code) / 64 % 2 == 1) = c.anyOf
    rw [split]
    cases c.anyOf <;> cases c.invert <;> grind
  · rw [split, mem_ofCode, testBit_targetBits, decide_eq_true_iff]

end Condition

theorem Action.code_lt (x : Action) : x.code < 64 := by
  cases x with
  | control c => cases c <;> decide
  | register op r => cases op <;> cases r <;> decide

/-- The word of an instruction has nine bits. -/
theorem Opcode.word_lt (opcode : Opcode) : opcode.word < 512 := by
  cases opcode with
  | movement source destination =>
    have first := source.code_lt
    have second := destination.code_lt
    simp only [word]
    omega
  | condition c =>
    have code := c.code_lt
    simp only [word]
    omega
  | action x =>
    have code := x.code_lt
    simp only [word]
    omega

/-- The word of an instruction fits every machine. -/
theorem Opcode.word_lt_wordCount {bits : Nat} (wide : 9 ≤ bits) (opcode : Opcode) :
    opcode.word < wordCount bits := by
  have least : wordCount 9 ≤ wordCount bits := wordCount_le wide
  exact Nat.lt_of_lt_of_le opcode.word_lt least

/-- A word with the highest of nine bits is read as a movement. -/
theorem kind?_movement (source : Source) (destination : Destination) :
    kind? (Opcode.movement source destination).word = some .movement := by
  have first := source.code_lt
  have second := destination.code_lt
  have high : (256 + source.code * 16 + destination.code) / 256 % 2 = 1 := by omega
  unfold kind? Opcode.word
  rw [if_pos high]

theorem source_movement (source : Source) (destination : Destination) :
    Isa.source (Opcode.movement source destination).word = source := by
  have first := source.code_lt
  have second := destination.code_lt
  have same : (256 + source.code * 16 + destination.code) / 16 = 16 + source.code := by omega
  unfold Isa.source Opcode.word
  rw [same]
  cases source <;> rfl

theorem destination?_movement (source : Source) (destination : Destination) :
    destination? (Opcode.movement source destination).word = some destination := by
  unfold destination? Opcode.word Destination.ofCode?
  have same : (256 + source.code * 16 + destination.code) % 16 = destination.code % 16 := by omega
  rw [same]
  cases destination <;> rfl

theorem ofWord?_movement (source : Source) (destination : Destination) :
    Opcode.ofWord? (Opcode.movement source destination).word =
      some (.movement source destination) := by
  unfold Opcode.ofWord?
  rw [kind?_movement, destination?_movement, source_movement]
  rfl

theorem kind?_condition (c : Condition) :
    kind? (Opcode.condition c).word = some .condition := by
  have code := c.code_lt
  show kind? (128 + c.code) = some .condition
  unfold kind?
  rw [if_neg (by omega), if_pos (by omega)]

theorem ofWord?_condition (c : Condition) :
    ∃ other : Condition, Opcode.ofWord? (Opcode.condition c).word = some (.condition other) ∧
      other.Same c := by
  refine ⟨_, ?_, c.ofCode_code⟩
  unfold Opcode.ofWord?
  rw [kind?_condition]
  rfl

theorem kind?_action (x : Action) : kind? (Opcode.action x).word = some .action := by
  have code := x.code_lt
  show kind? (64 + x.code) = some .action
  unfold kind?
  rw [if_neg (by omega), if_neg (by omega), if_pos (by omega)]

theorem ofWord?_action (x : Action) :
    Opcode.ofWord? (Opcode.action x).word = some (.action x) := by
  have read : action? (Opcode.action x).word = some x := by
    cases x with
    | control c => cases c <;> rfl
    | register op r => cases op <;> cases r <;> rfl
  unfold Opcode.ofWord?
  rw [kind?_action, read]
  rfl

/-- An instruction's word is followed by the words that its locations take. -/
theorem operandCount_word (opcode : Opcode) :
    operandCount opcode.word =
      match opcode with
      | .movement source destination =>
        (if source.takesWord then 1 else 0) + if destination.takesWord then 1 else 0
      | _ => 0 := by
  unfold operandCount
  cases opcode with
  | movement source destination =>
    rw [kind?_movement, source_movement, destination?_movement, if_pos rfl]
    rfl
  | condition c => rw [kind?_condition, if_neg (by decide)]
  | action x => rw [kind?_action, if_neg (by decide)]

/-! ## Reading words -/

section
variable {word : Nat}

theorem ofWord?_eq_movement {source : Source} {destination : Destination} :
    Opcode.ofWord? word = some (.movement source destination) ↔
      kind? word = some .movement ∧ Isa.source word = source ∧
        destination? word = some destination := by
  unfold Opcode.ofWord?
  cases kind? word with
  | none => simp
  | some kind =>
    cases kind with
    | movement =>
      constructor
      · intro read
        obtain ⟨place, found, same⟩ := Option.map_eq_some_iff.1 read
        cases same
        exact ⟨rfl, rfl, found⟩
      · rintro ⟨-, rfl, found⟩
        exact Option.map_eq_some_iff.2 ⟨_, found, rfl⟩
    | _ => simp

theorem ofWord?_eq_condition {c : Condition} :
    Opcode.ofWord? word = some (.condition c) ↔
      kind? word = some .condition ∧ Isa.condition word = c := by
  unfold Opcode.ofWord?
  cases kind? word with
  | none => simp
  | some kind => cases kind <;> simp

theorem ofWord?_eq_action {x : Action} :
    Opcode.ofWord? word = some (.action x) ↔
      kind? word = some .action ∧ action? word = some x := by
  unfold Opcode.ofWord?
  cases kind? word with
  | none => simp
  | some kind => cases kind <;> simp

/-! Only nine bits of a word count. -/

theorem kind?_mod (word : Nat) : kind? (word % 512) = kind? word := by
  have movement : word % 512 / 256 % 2 = word / 256 % 2 := by omega
  have condition : word % 512 / 128 % 2 = word / 128 % 2 := by omega
  have action : word % 512 / 64 % 2 = word / 64 % 2 := by omega
  unfold kind?
  rw [movement, condition, action]

theorem source_mod (word : Nat) : Isa.source (word % 512) = Isa.source word := by
  have field : word % 512 / 16 % 16 = word / 16 % 16 := by omega
  unfold Isa.source Source.ofCode
  rw [field]

theorem destination?_mod (word : Nat) : destination? (word % 512) = destination? word := by
  have field : word % 512 % 16 = word % 16 := by omega
  unfold destination? Destination.ofCode?
  rw [field]

theorem condition_mod (word : Nat) : Isa.condition (word % 512) = Isa.condition word := by
  have invert : word % 512 / 32 % 2 = word / 32 % 2 := by omega
  have anyOf : word % 512 / 64 % 2 = word / 64 % 2 := by omega
  have targets (t : Target) : word % 512 / t.bit % 2 = word / t.bit % 2 := by
    cases t <;> simp only [Target.bit] <;> omega
  unfold Isa.condition Condition.ofCode
  simp only [invert, anyOf, targets]

theorem action?_mod (word : Nat) : action? (word % 512) = action? word := by
  have field : word % 512 % 64 = word % 64 := by omega
  unfold action? Action.ofCode?
  rw [field]

theorem ofWord?_mod (word : Nat) : Opcode.ofWord? (word % 512) = Opcode.ofWord? word := by
  unfold Opcode.ofWord?
  rw [kind?_mod, source_mod, destination?_mod, condition_mod, action?_mod]

theorem operandCount_mod (word : Nat) : operandCount (word % 512) = operandCount word := by
  unfold operandCount
  rw [kind?_mod, source_mod, destination?_mod]

/-- A word of nine bits is that of the instruction it stands for. -/
theorem word_of_ofWord? {opcode : Opcode} (small : word < 512)
    (read : Opcode.ofWord? word = some opcode) : opcode.word = word := by
  have all : ∀ word < 512, ∀ opcode ∈ Opcode.ofWord? word, opcode.word = word := by
    decide +kernel
  exact all word small opcode read

end

end NineBit.Isa

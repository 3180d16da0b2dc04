import Mathlib.Data.List.Basic
import NineBit.Proofs.Asm.Linked
import NineBit.Proofs.Machine.Refinement

/-!
# Statements mean what the machine does

`Statement.meaning` is what a statement says by itself: the words of its operands go to M and N, and
the value of the named source goes to the named destination; or a condition is tested, or an action
performed. A machine that is about to fetch where an assembled statement stands, with the words of
the image in its memory, does just that (`Linked.step_of_statement`): the word of the statement is
read as its instruction, and the words behind it are those of its operands, in the order in which
the machine reads them.
-/

namespace NineBit

open Machine (Architecture Exec Cpu)

namespace Asm

/-- The literal of a movement's source. -/
def Statement.sourceLiteral (s : Statement) : Option Literal :=
  match s.body with
  | .movement _ _ _ sourceLiteral => sourceLiteral
  | _ => none

/-- The literal of a movement's destination. -/
def Statement.destinationLiteral (s : Statement) : Option Literal :=
  match s.body with
  | .movement _ _ destinationLiteral _ => destinationLiteral
  | _ => none

/-- What a statement says, with the words of its source and destination literals. -/
def Statement.meaning (s : Statement) (sourceWord destinationWord : Option Nat) : Exec Unit := do
  let x ← get
  if x.skip then
    modify fun x => { x with skip := false }
    Exec.advance (1 + s.operands.length)
  else
    match s.body with
    | .movement destination source _ _ =>
      modify fun x => { x with m := sourceWord.getD x.m }
      modify fun x => { x with n := destinationWord.getD x.n }
      Exec.advance s.operands.length
      Exec.move source destination
    | .condition c => Exec.condition c
    | .action x => Exec.action x
    | .constant _ => return

/-- The word, reduced to the width of words, that an operand at an address is linked to. -/
inductive Output.LinksOperand (bits : Nat) (o : Output) (pieces : List Piece) (address : Nat) :
    Option Literal → Option Nat → Prop where
  | none : LinksOperand bits o pieces address .none .none
  | some {literal : Literal} {word : Nat}
      (settles : o.Settles pieces address (literal.operand bits) word) :
      LinksOperand bits o pieces address (.some literal) (.some (word % wordCount bits))

end Asm

namespace Machine

/-- The memory holds a part of an image, its words reduced to the width of words. -/
def Memory.Holds (m : Memory) (bits : Nat) (words : Array Nat) (start count : Nat) : Prop :=
  ∀ k < count, ∀ word, words[start + k]? = some word →
    m.read (start + k : Nat) = .ok (word % wordCount bits)

/-- The words of two operands, one behind the other. -/
theorem Memory.read_operands {m : Memory} {start : Nat} {sourceWord destinationWord : Option Nat}
    (first : ∀ word, sourceWord = some word → m.read start = .ok word)
    (second : ∀ word, destinationWord = some word →
      m.read (start + sourceWord.toList.length : Nat) = .ok word)
    (k word : Nat) (found : (sourceWord.toList ++ destinationWord.toList)[k]? = some word) :
    m.read (start + k : Nat) = .ok word := by
  have alone : ∀ {k} {operand : Option Nat}, operand.toList[k]? = some word →
      k = 0 ∧ operand = some word := by
    intro k operand found
    have lt := (List.getElem?_eq_some_iff.1 found).1
    obtain rfl : k = 0 := by
      have le : operand.toList.length ≤ 1 := Option.length_toList_le
      omega
    cases operand with
    | none => cases found
    | some other => exact ⟨rfl, found⟩
  rw [List.getElem?_append] at found
  split at found
  · obtain ⟨rfl, same⟩ := alone found
    exact first word same
  · obtain ⟨zero, same⟩ := alone found
    obtain rfl : k = sourceWord.toList.length := by omega
    exact second word same

/-- The words behind an address, read one by one, do not reach the end of the memory. -/
theorem Memory.lt_of_reads {m : Memory} {address first : Nat} {words : List Nat}
    (here : m.read address = .ok first)
    (behind : ∀ k word, words[k]? = some word → m.read (address + 1 + k : Nat) = .ok word) :
    address + words.length < m.size := by
  cases words with
  | nil => exact lt_of_read here
  | cons word rest =>
    have last : rest.length < (word :: rest).length := Nat.lt_succ_self _
    have lt := lt_of_read (behind rest.length _ (List.getElem?_eq_getElem last))
    rw [List.length_cons]
    omega

/-! ## The machine's side -/

namespace Exec

variable {x : Architecture} {source : Isa.Source} {destination : Isa.Destination}

/-- Conditions that test the same targets in the same way are met alike. -/
theorem meets_same {c other : Isa.Condition} (same : c.Same other) (x : Architecture) :
    x.meets c = x.meets other := by
  unfold Architecture.meets
  have any : c.targets.any x.test = other.targets.any x.test := by
    rw [Bool.eq_iff_iff, List.any_eq_true, List.any_eq_true]
    simp only [same.targets]
  have all : c.targets.all x.test = other.targets.all x.test := by
    rw [Bool.eq_iff_iff, List.all_eq_true, List.all_eq_true]
    simp only [same.targets]
  rw [any, all, same.anyOf, same.invert]

theorem condition_same {c other : Isa.Condition} (same : c.Same other) :
    condition c = condition other := by
  unfold condition
  simp only [meets_same same]

section
variable {word : Nat} (next : x.pc + 1 < wordCount x.bits)

include next

theorem run_advance_one : (advance 1).run x = .ok () { x with pc := x.pc + 1 } := by
  show EStateM.Result.ok () { x with pc := (x.pc + 1) % wordCount x.bits } = _
  rw [Nat.mod_eq_of_lt next]

variable (read : x.memory.read (x.pc + 1 : Nat) = .ok word) (rest : Exec Unit)

include read

theorem result_operandM :
    (do advance 1; operandM; rest : Exec Unit).result x =
      rest.result { x with pc := x.pc + 1, m := word } := by
  rw [result_bind_ok (run_advance_one next),
    result_bind_ok (run_operandM_ok (x := { x with pc := x.pc + 1 }) read)]

theorem result_operandN :
    (do advance 1; operandN; rest : Exec Unit).result x =
      rest.result { x with pc := x.pc + 1, n := word } := by
  rw [result_bind_ok (run_advance_one next),
    result_bind_ok (run_operandN_ok (x := { x with pc := x.pc + 1 }) read)]

end

/-- A movement whose operands can be read. -/
theorem movement_result {sourceWord destinationWord : Option Nat}
    (takesM : source.takesWord = sourceWord.isSome)
    (takesN : destination.takesWord = destinationWord.isSome)
    (inside : x.pc + (sourceWord.toList ++ destinationWord.toList).length < wordCount x.bits)
    (words : ∀ k word, (sourceWord.toList ++ destinationWord.toList)[k]? = some word →
      x.memory.read (x.pc + 1 + k : Nat) = .ok word) :
    (movement source destination).result x =
      (move source destination).result
        { x with
          m := sourceWord.getD x.m
          n := destinationWord.getD x.n
          pc := (x.pc + (sourceWord.toList ++ destinationWord.toList).length) %
            wordCount x.bits } := by
  rw [Nat.mod_eq_of_lt inside]
  cases sourceWord with
  | none =>
    rw [movement_of_not takesM]
    cases destinationWord with
    | none =>
      rw [moveFromN_of_not takesN]
      rfl
    | some word =>
      rw [moveFromN_of_word takesN, result_operandN inside (words 0 word rfl)]
      rfl
  | some first =>
    have one : x.pc + 1 < wordCount x.bits := by
      simp only [Option.toList_some, List.singleton_append, List.length_cons] at inside
      omega
    rw [movement_of_word takesM, result_operandM one (words 0 first rfl)]
    cases destinationWord with
    | none =>
      rw [moveFromN_of_not takesN]
      rfl
    | some second =>
      rw [moveFromN_of_word takesN,
        result_operandN (x := { x with pc := x.pc + 1, m := first }) inside (words 1 second rfl)]
      rfl

end Exec

end Machine

namespace Asm

/-! ## The image's side -/

section
variable {bits : Nat} {o : Output} {pieces : List Piece} {s : Statement} {address : Nat}

theorem Statement.operands_eq (s : Statement) :
    s.operands = s.sourceLiteral.toList ++ s.destinationLiteral.toList := by
  obtain ⟨id, span, label, body⟩ := s
  cases body <;> rfl

section
variable {memory : Machine.Memory}

theorem Output.LinksOperand.isSome {literal : Option Literal} {word : Option Nat}
    (links : o.LinksOperand bits pieces address literal word) : literal.isSome = word.isSome := by
  cases links <;> rfl

theorem Output.LinksOperand.length {literal : Option Literal} {word : Option Nat}
    (links : o.LinksOperand bits pieces address literal word) :
    literal.toList.length = word.toList.length := by
  cases links <;> rfl

/-- An operand's word, as the machine reads it. -/
theorem Output.exists_linksOperand (literal : Option Literal)
    (words : ∀ l, literal = some l → ∃ word, o.Settles pieces address (l.operand bits) word ∧
      memory.read (address : Nat) = .ok (word % wordCount bits)) :
    ∃ word, o.LinksOperand bits pieces address literal word ∧
      ∀ w, word = some w → memory.read (address : Nat) = .ok w := by
  cases literal with
  | none => exact ⟨none, .none, fun _ same => nomatch same⟩
  | some l =>
    obtain ⟨word, settles, read⟩ := words l rfl
    refine ⟨_, .some settles, fun w same => ?_⟩
    cases same
    exact read

/-- The words behind that of a statement are those of its operands. -/
theorem Linked.operand_word (linked : Linked bits o pieces) (member : s ∈ o.program.executable)
    (found : o.addressOfId? s.id = some address)
    (holds : memory.Holds bits o.words address (1 + s.operands.length)) {k : Nat}
    {literal : Literal} (operand : s.operands[k]? = some literal) :
    ∃ word, o.Settles pieces (address + 1 + k) (literal.operand bits) word ∧
      memory.read (address + 1 + k : Nat) = .ok (word % wordCount bits) := by
  obtain ⟨opcode, code⟩ := Program.opcode_of_executable member
  have slot : (s.slots bits)[k + 1]? = some (literal.operand bits) := by
    unfold Statement.slots
    rw [code]
    show (s.operands.map (Literal.operand bits))[k]? = _
    rw [List.getElem?_map, operand, Option.map_some]
  obtain ⟨word, written, settles⟩ := linked.statement_word member found slot
  have place : address + (k + 1) = address + 1 + k := by omega
  have lt := (List.getElem?_eq_some_iff.1 operand).1
  have read := holds (k + 1) (by omega) word written
  rw [place] at settles read
  exact ⟨word, settles, read⟩

end

section
variable {x : Architecture} {sourceWord destinationWord : Option Nat}

theorem Statement.meaning_skip (skip : x.skip = true) :
    (s.meaning sourceWord destinationWord).result x =
      (Exec.advance (1 + s.operands.length)).result { x with skip := false } := by
  unfold Statement.meaning Exec.result
  simp only [EStateM.run_bind, EStateM.run_get, skip, if_true, EStateM.run_modify]

theorem Statement.meaning_movement {destination : Isa.Destination} {source : Isa.Source}
    {destinationLiteral sourceLiteral : Option Literal} (skip : x.skip = false)
    (body : s.body = .movement destination source destinationLiteral sourceLiteral) :
    (s.meaning sourceWord destinationWord).result x =
      (Exec.move source destination).result
        { x with
          m := sourceWord.getD x.m
          n := destinationWord.getD x.n
          pc := (x.pc + s.operands.length) % wordCount x.bits } := by
  unfold Statement.meaning Exec.result
  simp only [EStateM.run_bind, EStateM.run_get, skip, Bool.false_eq_true, if_false, body,
    EStateM.run_modify]
  rfl

theorem Statement.meaning_condition {c : Isa.Condition} (skip : x.skip = false)
    (body : s.body = .condition c) :
    (s.meaning sourceWord destinationWord).result x = (Exec.condition c).result x := by
  unfold Statement.meaning Exec.result
  simp only [EStateM.run_bind, EStateM.run_get, skip, Bool.false_eq_true, if_false, body]

theorem Statement.meaning_action {action : Isa.Action} (skip : x.skip = false)
    (body : s.body = .action action) :
    (s.meaning sourceWord destinationWord).result x = (Exec.action action).result x := by
  unfold Statement.meaning Exec.result
  simp only [EStateM.run_bind, EStateM.run_get, skip, Bool.false_eq_true, if_false, body]

end

/-- The word of a statement in memory is that of its instruction. -/
theorem Linked.opcode_read (linked : Linked bits o pieces) (wide : 9 ≤ bits)
    (member : s ∈ o.program.executable) (found : o.addressOfId? s.id = some address)
    {memory : Machine.Memory}
    (holds : memory.Holds bits o.words address (1 + s.operands.length)) {opcode : Isa.Opcode}
    (code : s.opcode? = some opcode) : memory.read (address : Nat) = .ok opcode.word := by
  have slot : (s.slots bits)[0]? = some (.word opcode.word) := by
    unfold Statement.slots
    rw [code]
    rfl
  obtain ⟨word, written, settles⟩ := linked.statement_word member found slot
  cases settles
  have read := holds 0 (by omega) _ written
  rw [Nat.mod_eq_of_lt (opcode.word_lt_wordCount wide)] at read
  exact read

section
variable {x : Architecture} {sourceWord destinationWord : Option Nat} {opcode : Isa.Opcode}

/-- A movement whose operand words stand behind its own. -/
theorem Statement.step_movement (skip : x.skip = false) {destination : Isa.Destination}
    {source : Isa.Source} {destinationLiteral sourceLiteral : Option Literal}
    (body : s.body = .movement destination source destinationLiteral sourceLiteral)
    (read : x.memory.read x.pc = .ok (Isa.Opcode.movement source destination).word)
    (takesM : source.takesWord = sourceWord.isSome)
    (takesN : destination.takesWord = destinationWord.isSome)
    (count : s.operands.length = (sourceWord.toList ++ destinationWord.toList).length)
    (words : ∀ k word, (sourceWord.toList ++ destinationWord.toList)[k]? = some word →
      x.memory.read (x.pc + 1 + k : Nat) = .ok word)
    (space : x.memory.size ≤ wordCount x.bits) :
    Exec.step.result x = (s.meaning sourceWord destinationWord).result x := by
  have inside : x.pc + (sourceWord.toList ++ destinationWord.toList).length < wordCount x.bits :=
    Nat.lt_of_lt_of_le (Machine.Memory.lt_of_reads read words) space
  rw [Exec.step_of_opcode read skip (Isa.ofWord?_movement source destination),
    s.meaning_movement skip body, count]
  exact Exec.movement_result takesM takesN inside words

theorem Statement.step_condition (skip : x.skip = false) {c : Isa.Condition}
    (body : s.body = .condition c)
    (read : x.memory.read x.pc = .ok (Isa.Opcode.condition c).word) :
    Exec.step.result x = (s.meaning sourceWord destinationWord).result x := by
  -- A word keeps the set of targets only: what is decoded may name them in another order.
  obtain ⟨other, decoded, alike⟩ := Isa.ofWord?_condition c
  rw [Exec.step_of_opcode read skip decoded, s.meaning_condition skip body]
  exact congrArg (fun e => e.result x) (Exec.condition_same alike)

theorem Statement.step_action (skip : x.skip = false) {action : Isa.Action}
    (body : s.body = .action action)
    (read : x.memory.read x.pc = .ok (Isa.Opcode.action action).word) :
    Exec.step.result x = (s.meaning sourceWord destinationWord).result x := by
  rw [Exec.step_of_opcode read skip (Isa.ofWord?_action action), s.meaning_action skip body]
  rfl

/-- A skipped statement is passed over with its operands. -/
theorem Statement.step_skip (skip : x.skip = true) (complete : s.body.Complete)
    (code : s.opcode? = some opcode) (read : x.memory.read x.pc = .ok opcode.word) :
    Exec.step.result x = (s.meaning sourceWord destinationWord).result x := by
  rw [Exec.step_of_skip read skip, s.operandCount_eq complete code, s.meaning_skip skip]

end

/-- A machine that is about to fetch a statement of a linked image does what the statement says. -/
theorem Linked.step_of_statement (linked : Linked bits o pieces) (wide : 9 ≤ bits)
    (member : s ∈ o.program.executable) (complete : s.body.Complete)
    (found : o.addressOfId? s.id = some address) {x : Architecture} (width : x.bits = bits)
    (pc : x.pc = address) (space : x.memory.size ≤ wordCount bits)
    (holds : x.memory.Holds bits o.words address (1 + s.operands.length)) :
    ∃ sourceWord destinationWord,
      o.LinksOperand bits pieces (address + 1) s.sourceLiteral sourceWord ∧
      o.LinksOperand bits pieces (address + 1 + s.sourceLiteral.toList.length)
        s.destinationLiteral destinationWord ∧
      Exec.step.result x = (s.meaning sourceWord destinationWord).result x := by
  obtain ⟨opcode, code⟩ := Program.opcode_of_executable member
  have read : x.memory.read x.pc = .ok opcode.word :=
    pc ▸ linked.opcode_read wide member found holds code
  have operands := s.operands_eq
  obtain ⟨sourceWord, firstLinks, firstRead⟩ := Output.exists_linksOperand s.sourceLiteral
    fun l same => linked.operand_word member found holds (k := 0) (by rw [operands, same]; rfl)
  obtain ⟨destinationWord, secondLinks, secondRead⟩ := Output.exists_linksOperand
    s.destinationLiteral fun l same =>
      linked.operand_word member found holds (by
        rw [operands, same, List.getElem?_append_right (Nat.le_refl _), Nat.sub_self]
        rfl)
  refine ⟨sourceWord, destinationWord, firstLinks, secondLinks, ?_⟩
  cases skip : x.skip with
  | true => exact s.step_skip skip complete code read
  | false =>
    unfold Statement.opcode? at code
    cases body : s.body with
    | movement destination source destinationLiteral sourceLiteral =>
      rw [body] at code
      cases code
      have words : ∀ k word, (sourceWord.toList ++ destinationWord.toList)[k]? = some word →
          x.memory.read (x.pc + 1 + k : Nat) = .ok word := by
        rw [pc]
        refine Machine.Memory.read_operands firstRead fun word same => ?_
        rw [← firstLinks.length]
        exact secondRead word same
      have count : s.operands.length = (sourceWord.toList ++ destinationWord.toList).length := by
        rw [operands, List.length_append, List.length_append, firstLinks.length, secondLinks.length]
      have takes : destination.takesWord = s.destinationLiteral.isSome ∧
          source.takesWord = s.sourceLiteral.isSome := by
        unfold Statement.sourceLiteral Statement.destinationLiteral
        rw [body] at complete ⊢
        exact complete
      exact s.step_movement skip body read (takes.2.trans firstLinks.isSome)
        (takes.1.trans secondLinks.isSome) count words (width ▸ space)
    | condition c =>
      rw [body] at code
      cases code
      exact s.step_condition skip body read
    | action action =>
      rw [body] at code
      cases code
      exact s.step_action skip body read
    | constant literal =>
      rw [body] at code
      cases code

end

/-- The assembler and the machine agree on every statement. The words of an assembled statement are
    the linked words of its operands, and a reachable processor that is about to fetch it, with its
    words in memory, does what the statement says before the next fetch. -/
theorem Assembly.ticks_statement {config : Config} {source : Source} {o : Output}
    (h : (Assembly.ofSource config source).output = some o) :
    ∃ pieces, Linked config.wordBits o pieces ∧
      ∀ s ∈ o.program.executable, ∀ address, o.addressOfId? s.id = some address →
        ∀ cpu : Cpu, cpu.Reachable config → cpu.running = true → cpu.state = .fetch →
          cpu.datapath.cells.pc = address →
          cpu.datapath.memory.Holds config.wordBits o.words address (1 + s.operands.length) →
          ∃ sourceWord destinationWord,
            o.LinksOperand config.wordBits pieces (address + 1) s.sourceLiteral sourceWord ∧
            o.LinksOperand config.wordBits pieces (address + 1 + s.sourceLiteral.toList.length)
              s.destinationLiteral destinationWord ∧
            ∃ n ≤ 10, cpu.Completes n ∧
              (cpu.ticks n).architecture =
                (s.meaning sourceWord destinationWord).result cpu.architecture := by
  have assembled := assembled_of_output h
  obtain ⟨pieces, linked⟩ := assembled.linked
  refine ⟨pieces, linked, fun s member address found cpu reachable running state pc holds => ?_⟩
  have fits := reachable.fits
  have complete : s.body.Complete :=
    assembled.parsed.sound.2 s (Array.mem_toList_iff.1 (List.mem_filter.1 member).1)
  obtain ⟨sourceWord, destinationWord, first, second, same⟩ :=
    linked.step_of_statement config.nine_le_wordBits member complete found
      (x := cpu.architecture) fits.bits pc (fits.size ▸ config.memorySize_le) holds
  obtain ⟨n, le, completes, stepped⟩ := Machine.Cpu.completes_step running state fits
  exact ⟨sourceWord, destinationWord, first, second, n, le, completes, stepped.trans same⟩

/-- A literal moved to the memory cell of a constant. -/
theorem Assembly.ticks_statement_store : ∃ o s cpu,
    (Assembly.ofSource .standard ⟨"text", "mem :x = 7 !done x: [0]"⟩).output = some o ∧
      s ∈ o.program.executable ∧ (Cpu.initial .standard).load [497, 7, 4, 66, 0] = .ok cpu ∧
      ∃ sourceWord destinationWord, ∃ n ≤ 10, cpu.reset.tick.1.Completes n ∧
        (cpu.reset.tick.1.ticks n).architecture =
          (s.meaning sourceWord destinationWord).result cpu.reset.tick.1.architecture := by
  have image : ((Assembly.ofSource .standard
      ⟨"text", "mem :x = 7 !done x: [0]"⟩).output.map fun o =>
        (o.words,
          o.program.executable.head?.map fun s => (o.addressOfId? s.id, s.operands.length))) =
        some (#[497, 7, 4, 66, 0], some (some 0, 2)) := by
    decide +kernel
  obtain ⟨o, output, same⟩ := Option.map_eq_some_iff.1 image
  obtain ⟨words, first⟩ := Prod.mk.inj same
  obtain ⟨s, head, same⟩ := Option.map_eq_some_iff.1 first
  obtain ⟨found, count⟩ := Prod.mk.inj same
  have reads : ((Cpu.initial .standard).load [497, 7, 4, 66, 0]).map (fun cpu =>
      [0, 1, 2].map fun address : Nat => cpu.datapath.memory.read address) =
        .ok [.ok 497, .ok 7, .ok 4] := by
    decide +kernel
  cases loaded : (Cpu.initial .standard).load [497, 7, 4, 66, 0] with
  | error fault =>
    rw [loaded] at reads
    cases reads
  | ok cpu =>
    rw [loaded] at reads
    obtain ⟨zero, rest⟩ := List.cons.inj (Except.ok.inj reads)
    obtain ⟨one, rest⟩ := List.cons.inj rest
    obtain ⟨two, -⟩ := List.cons.inj rest
    have holds : cpu.reset.tick.1.datapath.memory.Holds 9 o.words 0 (1 + s.operands.length) := by
      rw [words, count]
      intro k lt word at_k
      match k with
      | 0 => cases at_k; exact zero
      | 1 => cases at_k; exact one
      | 2 => cases at_k; exact two
    obtain ⟨pieces, -, each⟩ := Assembly.ticks_statement output
    obtain ⟨sourceWord, destinationWord, -, -, done⟩ :=
      each s (List.mem_of_mem_head? head) 0 found cpu.reset.tick.1
        (.tick (.reset (.load .initial loaded))) rfl rfl rfl holds
    exact ⟨o, s, cpu, output, List.mem_of_mem_head? head, rfl, sourceWord, destinationWord, done⟩

end Asm

end NineBit

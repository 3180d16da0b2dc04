import Mathlib.Data.List.Forall2
import NineBit.Proofs.Asm.Linked
import NineBit.Proofs.Disassembly.Lines

/-!
# Disassembling an assembled program

The lines of an assembled image are its statements again (`Assembly.output_recovered`): as many
lines as there are statements in the code, each at the address of its statement, with the word of
its instruction and those of its operands (`Recovers`), and each behind the one before it, so that
together they cover the code (`Disassembly.Tiled`). One line too long or too short would put all
later lines in the wrong place; each is as long as its statement because the instruction's word
tells how many operands follow (`Linked.recovers_statement`).
-/

namespace NineBit

open Disassembly (Line)

/-- Lines one behind the other, from a start to a stop. -/
def Disassembly.Tiled (start : Int) (lines : List Line) (stop : Int) : Prop :=
  match lines with
  | [] => start = stop
  | line :: rest => line.address = start ∧ Tiled (start + line.size) rest stop

namespace Asm

/-- An instruction says what a statement says, its operands aside. -/
def Statement.ReadAs (s : Statement) : Isa.Opcode → Prop
  | .movement source destination =>
    ∃ first second, s.body = .movement destination source second first
  | .condition c => ∃ own, s.body = .condition own ∧ c.Same own
  | .action x => s.body = .action x

/-- A line shows the statement at an address of a linked image. -/
structure Recovers (bits : Nat) (o : Output) (pieces : List Piece) (s : Statement) (address : Nat)
    (line : Line) : Prop where
  found : o.addressOfId? s.id = some address
  place : line.address = address
  shown : line.isData = false
  whole : line.isCut = false
  size : line.size = 1 + s.operands.length
  words : line.words = (o.integers.drop address).take line.size
  /-- The first word is read as the statement's instruction, in its written form. -/
  opcode : ∃ opcode, Isa.Opcode.ofWord? (Isa.low (line.words.headD 0)) = some opcode ∧
    s.ReadAs opcode ∧ line.text = Disassembly.instructionText opcode (line.words.drop 1)
  /-- The words behind it are the linked words of the operands. -/
  operand : ∀ (k : Nat) (literal : Literal), s.operands[k]? = some literal →
    ∃ word : Nat, line.words[1 + k]? = some (word : Int) ∧
      o.Settles pieces (address + 1 + k) (literal.operand bits) word

section
variable {bits : Nat} {o : Output} {pieces : List Piece} {s : Statement} {address : Nat}

/-- The word of a statement that can be encoded is read as its instruction. -/
theorem Statement.instruction?_word {opcode : Isa.Opcode} (complete : s.body.Complete)
    (code : s.opcode? = some opcode) :
    ∃ read, Disassembly.instruction? (opcode.word : Nat) = some read ∧ s.ReadAs read := by
  have low : Isa.low (opcode.word : Nat) = opcode.word := by
    rw [Isa.low_natCast, Nat.mod_eq_of_lt opcode.word_lt]
  unfold Disassembly.instruction?
  rw [low]
  unfold Statement.opcode? at code
  cases body : s.body with
  | movement destination source second first =>
    rw [body] at code
    cases code
    rw [Isa.ofWord?_movement]
    exact ⟨_, rfl, first, second, body⟩
  | condition c =>
    rw [body] at code complete
    cases code
    -- The targets come in another order, but some are left.
    obtain ⟨other, decoded, alike⟩ := Isa.ofWord?_condition c
    rw [decoded]
    refine ⟨.condition other, ?_, c, body, alike⟩
    obtain ⟨target, member⟩ := List.exists_mem_of_ne_nil _ complete
    have some : other.targets ≠ [] :=
      List.ne_nil_of_mem ((alike.targets target).2 member)
    exact Option.filter_eq_some_iff.2 ⟨rfl, by simpa using some⟩
  | action x =>
    rw [body] at code
    cases code
    rw [Isa.ofWord?_action]
    exact ⟨_, rfl, body⟩
  | constant literal =>
    rw [body] at code
    cases code

theorem Statement.length_slots {opcode : Isa.Opcode} (code : s.opcode? = some opcode) :
    (s.slots bits).length = 1 + s.operands.length := by
  unfold slots
  rw [code, List.length_cons, List.length_map, Nat.add_comm]

/-- The image from the address of a statement on: its instruction's word, and behind it at least the
    words of its operands. -/
theorem Linked.drop_statement (linked : Linked bits o pieces) (member : s ∈ o.program.executable)
    (found : o.addressOfId? s.id = some address) {opcode : Isa.Opcode}
    (code : s.opcode? = some opcode) :
    ∃ rest : List Int, o.integers.drop address = (opcode.word : Int) :: rest ∧
      s.operands.length ≤ rest.length ∧
      ∀ (k : Nat) (literal : Literal), s.operands[k]? = some literal →
        ∃ word : Nat, rest[k]? = some (word : Int) ∧
          o.Settles pieces (address + 1 + k) (literal.operand bits) word := by
  have slots : s.slots bits = .word opcode.word :: s.operands.map (Literal.operand bits) := by
    unfold Statement.slots
    rw [code]
  have written {k : Nat} {slot : Slot} (inside : (s.slots bits)[k]? = some slot) :
      ∃ word : Nat, (o.integers.drop address)[k]? = some (word : Int) ∧
        o.Settles pieces (address + k) slot word := by
    obtain ⟨word, here, settles⟩ := linked.statement_word member found inside
    refine ⟨word, ?_, settles⟩
    unfold Output.integers
    rw [List.getElem?_drop, List.getElem?_map, Array.getElem?_toList, here]
    rfl
  have first : (s.slots bits)[0]? = some (.word opcode.word) := by
    rw [slots]
    rfl
  obtain ⟨word, here, same⟩ := written first
  obtain rfl : word = opcode.word := same
  cases image : o.integers.drop address with
  | nil =>
    rw [image] at here
    cases here
  | cons head rest =>
    rw [image] at here written
    cases here
    have operand (k : Nat) (literal : Literal) (inside : s.operands[k]? = some literal) :
        ∃ word : Nat, rest[k]? = some (word : Int) ∧
          o.Settles pieces (address + 1 + k) (literal.operand bits) word := by
      rw [Nat.add_assoc, Nat.add_comm 1]
      refine written (k := k + 1) ?_
      rw [slots, List.getElem?_cons_succ, List.getElem?_map, inside]
      rfl
    refine ⟨rest, rfl, Nat.le_of_not_lt fun short => ?_, operand⟩
    obtain ⟨word, here, -⟩ := operand _ _ (List.getElem?_eq_getElem short)
    exact Nat.lt_irrefl _ (List.getElem?_eq_some_iff.1 here).1

/-- The line at the address of a statement shows it. -/
theorem Linked.recovers_statement (linked : Linked bits o pieces)
    (member : s ∈ o.program.executable) (complete : s.body.Complete)
    (found : o.addressOfId? s.id = some address) (symbols : SymbolTable) :
    ∃ word rest, o.integers.drop address = word :: rest ∧
      Recovers bits o pieces s address (Disassembly.lineOf symbols address word rest) := by
  obtain ⟨opcode, code⟩ := Program.opcode_of_executable member
  obtain ⟨rest, image, enough, operand⟩ := linked.drop_statement member found code
  have count : Isa.operandCount (Isa.low (opcode.word : Nat)) = s.operands.length := by
    rw [Isa.low_natCast, Nat.mod_eq_of_lt opcode.word_lt, s.operandCount_eq complete code]
  obtain ⟨read, decoded, reads⟩ := s.instruction?_word complete code
  obtain ⟨comment, line⟩ : ∃ comment, Disassembly.lineOf symbols address _ rest = _ :=
    Disassembly.lineOf_instruction decoded (count ▸ enough)
  have length : (rest.take s.operands.length).length = s.operands.length :=
    List.length_take_of_le enough
  refine ⟨_, rest, image, ?_⟩
  rw [line, count]
  have size : Line.size ⟨address, (opcode.word : Int) :: rest.take s.operands.length,
      Disassembly.instructionText read (rest.take s.operands.length), comment⟩ =
        1 + s.operands.length := by
    unfold Line.size
    rw [List.length_cons, length, Nat.add_comm]
  refine ⟨found, rfl, Disassembly.isData_instruction rfl, ?_, size, ?_, ?_, ?_⟩
  · exact Disassembly.isCut_instruction (length.trans count.symm)
  · rw [size, image, Nat.add_comm, List.take_succ_cons]
  · exact ⟨read, (Option.filter_eq_some_iff.1 decoded).1, reads, rfl⟩
  · intro k literal inside
    obtain ⟨word, here, settles⟩ := operand k literal inside
    refine ⟨word, ?_, settles⟩
    have lt := (List.getElem?_eq_some_iff.1 inside).1
    rw [Nat.add_comm, List.getElem?_cons_succ, List.getElem?_take_of_lt lt]
    exact here

/-- The lines of the code show the statements one by one. The induction is on the statements from
    an address on, with those before it fixing the address. -/
theorem Linked.recovers_code (linked : Linked bits o pieces)
    (complete : ∀ s ∈ o.program.executable, s.body.Complete) (symbols : SymbolTable)
    (after : List Statement) : ∀ (before : List Statement) (start : Nat),
    o.program.executable = before ++ after →
    start = (before.flatMap (Statement.slots bits)).length →
    List.Forall₂ (fun s line => ∃ address, Recovers bits o pieces s address line) after
        (Disassembly.linesOf symbols start (some after.length) (o.integers.drop start)) ∧
      Disassembly.Tiled start
        (Disassembly.linesOf symbols start (some after.length) (o.integers.drop start))
        (o.program.code bits).length := by
  induction after with
  | nil =>
    intro before start same first
    rw [List.append_nil] at same
    have none : Disassembly.linesOf symbols start (some 0) (o.integers.drop start) = [] := by
      unfold Disassembly.linesOf
      split
      · rfl
      · exact if_pos rfl
    rw [List.length_nil, none]
    refine ⟨.nil, ?_⟩
    unfold Program.code
    rw [same, ← first]
    rfl
  | cons s rest ih =>
    intro before start same first
    have member : s ∈ o.program.executable := same ▸ List.mem_append_right _ List.mem_cons_self
    have found : o.addressOfId? s.id = some start := first ▸ linked.code before s rest same
    obtain ⟨opcode, code⟩ := Program.opcode_of_executable member
    obtain ⟨word, behind, image, line⟩ :=
      linked.recovers_statement member (complete s member) found symbols
    have lines : Disassembly.linesOf symbols start (some (s :: rest).length)
        (o.integers.drop start) =
          Disassembly.lineOf symbols start word behind ::
            Disassembly.linesOf symbols (start + (1 + s.operands.length) : Nat)
              (some rest.length) (o.integers.drop (start + (1 + s.operands.length))) := by
      rw [← List.drop_drop, image, Disassembly.linesOf, if_neg (by simp)]
      dsimp only
      rw [line.size, Nat.add_comm 1, List.drop_succ_cons]
      rfl
    obtain ⟨each, tiled⟩ := ih (before ++ [s]) (start + (1 + s.operands.length))
      (by rw [same, List.append_assoc]; rfl)
      (by rw [List.flatMap_append, List.length_append, ← first, List.flatMap_singleton,
        s.length_slots code])
    rw [lines]
    refine ⟨.cons ⟨start, line⟩ each, line.place, ?_⟩
    rw [line.size, ← Int.natCast_add]
    exact tiled

end

/-- Disassembling an assembled image, as many lines as the program has statements that are code,
    gives these statements back, and the lines cover the code. -/
theorem Assembly.output_recovered {config : Config} {source : Source} {o : Output}
    (h : (Assembly.ofSource config source).output = some o) (symbols : SymbolTable) :
    ∃ pieces lines, Linked config.wordBits o pieces ∧
      Disassembly.lines symbols o.integers 0 (some o.program.executable.length) = .ok lines ∧
      List.Forall₂ (fun s line => ∃ address, Recovers config.wordBits o pieces s address line)
        o.program.executable lines ∧
      Disassembly.Tiled 0 lines (o.program.code config.wordBits).length := by
  have assembled := assembled_of_output h
  obtain ⟨pieces, linked⟩ := assembled.linked
  have complete (s : Statement) (member : s ∈ o.program.executable) : s.body.Complete :=
    assembled.parsed.sound.2 s (Array.mem_toList_iff.1 (List.mem_filter.1 member).1)
  obtain ⟨each, tiled⟩ := linked.recovers_code complete symbols o.program.executable [] 0 rfl rfl
  refine ⟨pieces, _, linked, ?_, each, tiled⟩
  unfold Disassembly.lines Disassembly.linesAt
  rfl

/-- One statement of each kind, and behind them data that the lines leave out. -/
theorem Assembly.output_recovered_kinds : ∃ o pieces lines,
    (Assembly.ofSource .standard
      ⟨"text", "mem :x = 7 ?!aZ +b !done x: [0]"⟩).output = some o ∧
      Linked 9 o pieces ∧
      Disassembly.lines [] o.integers 0 (some o.program.executable.length) = .ok lines ∧
      List.Forall₂ (fun s line => ∃ address, Recovers 9 o pieces s address line)
        o.program.executable lines ∧
      lines.map Line.text = ["mem 6 = 7", "?!Za", "+b", "!done"] := by
  have image : ((Assembly.ofSource .standard
      ⟨"text", "mem :x = 7 ?!aZ +b !done x: [0]"⟩).output.map fun o =>
        ((Disassembly.lines [] o.integers 0 (some o.program.executable.length)).map
          fun lines => lines.map Line.text)) =
        some (.ok ["mem 6 = 7", "?!Za", "+b", "!done"]) := by
    decide +kernel
  obtain ⟨o, output, same⟩ := Option.map_eq_some_iff.1 image
  obtain ⟨pieces, lines, linked, shown, each, -⟩ := Assembly.output_recovered output []
  rw [shown] at same
  exact ⟨o, pieces, lines, output, linked, shown, each, Except.ok.inj same⟩

end Asm

end NineBit

import NineBit.Proofs.Asm.Substitution
import NineBit.Proofs.Asm.Success
import NineBit.Proofs.Disassembly.Instructions

/-!
# Reassembling a disassembly

The lines of a disassembly are a program again, and that program has the words they were made of
(`Assembly.ofSource_lines`), if every line shows an instruction. The lines are instructions with
their operands (`Disassembly.linesOf_instructions`); written below one another they are a text whose
tokens stand apart (`Instruction.apart_lines`), which expansion leaves alone, and the statements
read from these tokens have the same words, none of which is left to the linker
(`layout_instructions`).
-/

namespace NineBit

/-! ## Lines as instructions -/

namespace Asm.Instruction

/-- Operands are those of a source and of a destination, if there are as many as both take. -/
theorem exists_operands {first second : Bool} {operands : List Nat}
    (count : operands.length = (if first then 1 else 0) + if second then 1 else 0) :
    ∃ one two : Option Nat, first = one.isSome ∧ second = two.isSome ∧
      one.toList ++ two.toList = operands := by
  cases first with
  | false =>
    cases second with
    | false => exact ⟨none, none, rfl, rfl, (List.eq_nil_of_length_eq_zero count).symm⟩
    | true =>
      obtain ⟨n, rfl⟩ := List.length_eq_one_iff.1 count
      exact ⟨none, some n, rfl, rfl, rfl⟩
  | true =>
    cases second with
    | false =>
      obtain ⟨n, rfl⟩ := List.length_eq_one_iff.1 count
      exact ⟨some n, none, rfl, rfl, rfl⟩
    | true =>
      obtain ⟨n, m, rfl⟩ := List.length_eq_two.1 count
      exact ⟨some n, some m, rfl, rfl, rfl⟩

/-- A word and as many operands as it takes are an instruction. -/
theorem exists_words {word : Nat} {read : Isa.Opcode} {operands : List Nat} (small : word < 512)
    (found : Disassembly.instruction? word = some read)
    (count : operands.length = Isa.operandCount word) :
    ∃ i : Instruction,
      i.Valid ∧ i.opcode = read ∧ i.opcode.word = word ∧ i.operands = operands := by
  obtain ⟨decoded, valid⟩ := Option.filter_eq_some_iff.1 found
  rw [Isa.low_natCast, Nat.mod_eq_of_lt small] at decoded
  have same := Isa.word_of_ofWord? small decoded
  cases read with
  | movement source destination =>
    rw [Disassembly.operandCount_movement decoded] at count
    obtain ⟨first, second, takesFirst, takesSecond, rfl⟩ := exists_operands count
    exact ⟨movement source destination first second, ⟨takesFirst, takesSecond⟩, rfl, same, rfl⟩
  | condition c =>
    obtain ⟨kind, rfl⟩ := Isa.ofWord?_eq_condition.1 decoded
    rw [Disassembly.operandCount_of_kind? kind (by decide)] at count
    refine ⟨condition (Isa.condition word), ⟨?_, Isa.Condition.nodup_ofCode _⟩, rfl, same,
      (List.eq_nil_of_length_eq_zero count).symm⟩
    simpa using valid
  | action x =>
    obtain ⟨kind, -⟩ := Isa.ofWord?_eq_action.1 decoded
    rw [Disassembly.operandCount_of_kind? kind (by decide)] at count
    exact ⟨action x, trivial, rfl, same, (List.eq_nil_of_length_eq_zero count).symm⟩

end Asm.Instruction

namespace Disassembly

open Asm (Instruction)

/-- A line shows an instruction whose word has nine bits. -/
structure Line.Shown (line : Line) : Prop where
  data : line.isData = false
  cut : line.isCut = false
  small : line.words.headD 0 < 512

instance (line : Line) : Decidable line.Shown :=
  decidable_of_iff (line.isData = false ∧ line.isCut = false ∧ line.words.headD 0 < 512)
    ⟨fun h => ⟨h.1, h.2.1, h.2.2⟩, fun h => ⟨h.data, h.cut, h.small⟩⟩

/-- Words as integers. -/
abbrev integers (words : List Nat) : List Int := words.map fun (n : Nat) => (n : Int)

theorem lineOf_shown {symbols : SymbolTable} {address : Int} {word : Nat} {rest : List Nat}
    (shown : (lineOf symbols address word (integers rest)).Shown) :
    ∃ i : Instruction, i.Valid ∧ (lineOf symbols address word (integers rest)).text = i.text ∧
      word :: rest =
        i.words ++ rest.drop ((lineOf symbols address word (integers rest)).size - 1) := by
  obtain ⟨read, found, enough⟩ := lineOf_shows shown.data shown.cut
  obtain ⟨comment, line⟩ : ∃ comment, lineOf symbols address word (integers rest) = _ :=
    lineOf_instruction found enough
  have head := shown.small
  rw [line] at head ⊢
  have small : word < 512 := Int.ofNat_lt.1 head
  rw [Isa.low_natCast, Nat.mod_eq_of_lt small] at enough ⊢
  rw [List.length_map] at enough
  have count : (rest.take (Isa.operandCount word)).length = Isa.operandCount word :=
    List.length_take_of_le enough
  obtain ⟨i, valid, opcode, same, operands⟩ := Instruction.exists_words small found count
  refine ⟨i, valid, ?_, ?_⟩
  · unfold Instruction.text
    rw [opcode, operands, List.map_take]
  · unfold Line.size Instruction.words
    rw [same, operands, List.length_cons, List.length_take_of_le (by rwa [List.length_map]),
      Nat.add_sub_cancel, List.cons_append, List.take_append_drop]

/-- Lines that all show instructions are the texts of some, whose words are those disassembled. -/
theorem linesOf_instructions (symbols : SymbolTable) (words : List Nat) (address : Int)
    (shown : ∀ line ∈ linesOf symbols address none (integers words), line.Shown) :
    ∃ is : List Instruction, (∀ i ∈ is, i.Valid) ∧ is.flatMap Instruction.words = words ∧
      (linesOf symbols address none (integers words)).map Line.text = is.map Instruction.text := by
  match words with
  | [] =>
    refine ⟨[], fun _ member => absurd member List.not_mem_nil, rfl, ?_⟩
    unfold linesOf
    rfl
  | word :: rest =>
    unfold integers at shown ⊢
    rw [List.map_cons, linesOf, if_neg (by simp)] at shown ⊢
    dsimp only at shown ⊢
    obtain ⟨i, valid, text, same⟩ := lineOf_shown (shown _ List.mem_cons_self)
    rw [← List.map_drop] at shown ⊢
    obtain ⟨is, others, words, texts⟩ := linesOf_instructions symbols
      (rest.drop _) _ fun line member => shown line (List.mem_cons_of_mem _ member)
    refine ⟨i :: is, ?_, ?_, ?_⟩
    · intro j member
      rcases List.mem_cons.1 member with rfl | later
      · exact valid
      · exact others j later
    · rw [List.flatMap_cons, words, same]
    · rw [List.map_cons, List.map_cons, text]
      exact congrArg (_ :: ·) texts
  termination_by words.length
  decreasing_by simp only [List.length_drop, List.length_cons]; omega

end Disassembly

namespace Asm

open Disassembly (Line)

/-! ## Instructions as a program -/

namespace Instruction

/-- In lines below one another the tokens of the instructions stand apart. -/
theorem apart_lines (is : List Instruction) (valid : ∀ i ∈ is, i.Valid) :
    Apart ("\n".intercalate (is.map text)).toList (is.flatMap shown) := by
  rw [String.toList_intercalate, List.map_map]
  induction is with
  | nil => exact .nil
  | cons i rest ih =>
    have first := i.apart (valid i List.mem_cons_self)
    have later := ih fun j member => valid j (List.mem_cons_of_mem _ member)
    cases rest with
    | nil =>
      rw [List.map_singleton, List.intercalate_singleton, List.flatMap_singleton]
      exact first
    | cons j rest =>
      rw [List.map_cons, List.map_cons, List.intercalate_cons_cons, List.flatMap_cons,
        List.append_assoc]
      refine first.append ?_ (.separator rfl later)
      rintro c member
      cases member
      rfl

theorem kind_of_shownOperand {operand : Option Nat} {token : Token}
    (member : token.shown ∈ shownOperand operand) : token.kind = .number := by
  obtain ⟨n, -, same⟩ := List.mem_map.1 member
  exact (congrArg Prod.fst same).symm

theorem kind_of_shownSource {source : Isa.Source} {token : Token}
    (member : token.shown ∈ shownSource source) : token.kind = .location := by
  unfold shownSource at member
  split at member
  · cases member
  · exact congrArg Prod.fst (List.mem_singleton.1 member)

/-- A movement has tokens of three kinds. -/
theorem kind_of_movement {source : Isa.Source} {destination : Isa.Destination}
    {first second : Option Nat} {token : Token}
    (member : token.shown ∈ (movement source destination first second).shown) :
    token.kind = .location ∨ token.kind = .number ∨ token.kind = .movement := by
  rcases List.mem_cons.1 member with place | member
  · exact .inl (congrArg Prod.fst place)
  rcases List.mem_append.1 member with index | member
  · exact .inr (.inl (kind_of_shownOperand index))
  rcases List.mem_cons.1 member with sign | member
  · exact .inr (.inr (congrArg Prod.fst sign))
  rcases List.mem_append.1 member with origin | operand
  · exact .inl (kind_of_shownSource origin)
  · exact .inr (.inl (kind_of_shownOperand operand))

/-- Expansion leaves the tokens of an instruction alone. -/
theorem plain_of_shown {i : Instruction} {token : Token} (member : token.shown ∈ i.shown) :
    token.Plain := by
  have plain {kind : Token.Kind} (same : token.kind = kind)
      (other : kind ∈ [.location, .number, .movement, .condition, .action]) : token.Plain := by
    subst same
    refine ⟨fun same => ?_, fun same => ?_, fun same => ?_, fun same => ?_⟩
    all_goals
      rw [same] at other
      exact absurd other (by decide)
  cases i with
  | movement source destination first second =>
    rcases kind_of_movement member with location | number | sign
    · exact plain location (by decide)
    · exact plain number (by decide)
    · exact plain sign (by decide)
  | condition c =>
    have kind : token.kind = .condition := congrArg Prod.fst (List.mem_singleton.1 member)
    exact plain kind (by decide)
  | action x =>
    cases x with
    | control c =>
      have kind : token.kind = .action := congrArg Prod.fst (List.mem_singleton.1 member)
      exact plain kind (by decide)
    | register op r =>
      obtain ⟨kind, text⟩ := Prod.mk.inj (List.mem_singleton.1 member)
      have chars : token.text.toList = [op.symbol, r.letter] :=
        (congrArg String.toList text).trans String.toList_ofList
      refine ⟨?_, ?_, ?_, fun _ => ?_⟩
      case refine_4 =>
        unfold Item.Reader.namesRegister Isa.Register.ofName?
        rw [chars, String.toList_ofList]
        exact Option.isSome_of_eq_some (Isa.Register.ofLetter?_letter r)
      all_goals
        rw [kind]
        decide

end Instruction

section
variable {is : List Instruction}

/-- The program of some instructions has their statements, and none of its stages reports
    anything. -/
theorem program_instructions (source : Source) (valid : ∀ i ∈ is, i.Valid)
    (written : source.text = "\n".intercalate (is.map Instruction.text)) (bits : Nat)
    (limit : Int) :
    ∃ statements : List Statement,
      (Assembly.program limit source).value = ⟨statements.toArray, [], []⟩ ∧
        (Assembly.program limit source).Quiet ∧
        List.Forall₂ (Instruction.Says bits) is statements := by
  have apart : Apart source.text.toList (is.flatMap Instruction.shown) := by
    rw [written]
    exact Instruction.apart_lines is valid
  obtain ⟨tokens, shown, scanned⟩ := Lexer.scan_apart source apart .initial .first rfl
  have lexed : lex source = .done ⟨tokens, []⟩ := by
    unfold lex
    rw [scanned, Report.bind_done]
    simp [Lexer.State.initial]
  have plain (token : Token) (member : token ∈ tokens) : token.Plain := by
    have inside : token.shown ∈ is.flatMap Instruction.shown := shown ▸ List.mem_map_of_mem member
    obtain ⟨i, -, own⟩ := List.mem_flatMap.1 inside
    exact Instruction.plain_of_shown own
  have expanded : expand [] tokens = .done tokens := Expansion.expandTokens_plain _ _ _ _ plain
  obtain ⟨statements, demands, read, meant⟩ := Instruction.readStatements_shown is valid shown
    (s := .initial) rfl
  have final : Parser.finalState limit tokens =
      { Parser.State.initial with statements := statements.toArray, demands := demands } := by
    unfold Parser.finalState
    rw [read, show Parser.State.initial.statements = #[] from rfl, Array.empty_append]
    rfl
  have program : (Parser.finalState limit tokens).program = ⟨statements.toArray, [], []⟩ := by
    rw [final]
    rfl
  have settled : (⟨statements.toArray, [], []⟩ : Program).resolution = ([], []) := by
    unfold Program.resolution
    rw [List.map_nil, Program.rounds, if_neg (by decide)]
  have recorded : ((Parser.finalState limit tokens).entries.forM Report.tell).Quiet := by
    rw [final]
    unfold Report.Quiet
    rw [entries_forM_tell]
    intro entry member
    obtain ⟨made, -, rfl⟩ := List.mem_map.1 (List.mem_append.1 member |>.resolve_left nofun)
    exact .demand made.2
  have parsed : (parse limit tokens).Quiet := by
    unfold parse
    dsimp only
    rw [program, settled]
    exact .bind recorded (.bind (.done ()) (.done _))
  have value : (Assembly.program limit source).value = ⟨statements.toArray, [], []⟩ := by
    unfold Assembly.program parse
    rw [lexed, Report.bind_done]
    dsimp only
    rw [expanded]
    simp only [Report.value_bind]
    exact program
  have quiet : (Assembly.program limit source).Quiet := by
    unfold Assembly.program
    rw [lexed, Report.bind_done]
    dsimp only
    rw [expanded]
    exact .bind (.tell (.milestone _)) (.bind (.done _) (.bind (.tell (.milestone _))
      (.bind parsed (.bind (.tell (.milestone _)) (.done _)))))
  exact ⟨statements, value, quiet, meant⟩

/-- The words of an instruction are known, and none is left to the linker. -/
theorem Instruction.slots_eq {bits : Nat} {i : Instruction}
    (fit : ∀ word ∈ i.words, word < wordCount bits) : i.slots bits = i.words.map Slot.word := by
  unfold slots words
  rw [List.map_cons]
  refine congrArg _ (List.map_congr_left fun n member => ?_)
  rw [Nat.mod_eq_of_lt (fit n (List.mem_cons_of_mem _ member))]

theorem slots_instructions {bits : Nat} {statements : List Statement}
    (meant : List.Forall₂ (Instruction.Says bits) is statements)
    (fit : ∀ word ∈ is.flatMap Instruction.words, word < wordCount bits) :
    (∀ s ∈ statements, s.isConstant = false ∧ s.body.Complete) ∧
      statements.flatMap (Statement.slots bits) =
        (is.flatMap Instruction.words).map Slot.word := by
  induction meant with
  | nil => exact ⟨fun _ member => absurd member List.not_mem_nil, rfl⟩
  | @cons i s is statements first rest ih =>
    rw [List.flatMap_cons] at fit ⊢
    obtain ⟨code, slots⟩ := ih fun word member => fit word (List.mem_append_right _ member)
    refine ⟨fun other member => ?_, ?_⟩
    · rcases List.mem_cons.1 member with rfl | later
      · exact ⟨first.code, first.complete⟩
      · exact code other later
    · rw [List.flatMap_cons, slots, first.slots, List.map_append,
        Instruction.slots_eq fun word member => fit word (List.mem_append_left _ member)]

theorem gapsFrom_words (words : List Nat) : ∀ address : Nat,
    Layout.gapsFrom address (words.map Slot.word) = [] := by
  induction words with
  | nil => exact fun _ => rfl
  | cons word rest ih => exact fun address => ih (address + 1)

/-- Statements that say what instructions say are laid out as the words of these. -/
theorem layout_instructions {bits memorySize : Nat} (wide : 9 ≤ bits) {statements : List Statement}
    (meant : List.Forall₂ (Instruction.Says bits) is statements)
    (fit : ∀ word ∈ is.flatMap Instruction.words, word < wordCount bits)
    (holds : (is.flatMap Instruction.words).length ≤ memorySize) :
    ∃ o, (layout bits memorySize ⟨statements.toArray, [], []⟩).value = .ok o ∧
      (layout bits memorySize ⟨statements.toArray, [], []⟩).Quiet ∧
      o.words.toList = is.flatMap Instruction.words := by
  obtain ⟨code, slots⟩ := slots_instructions meant fit
  have executable : Program.executable ⟨statements.toArray, [], []⟩ = statements := by
    refine List.filter_eq_self.2 fun s member => ?_
    rw [(code s member).1]
    rfl
  have codes : Layout.Draft.Codes bits ⟨#[], #[], []⟩ statements (Layout.code bits statements) :=
    Layout.Draft.codes_foldl wide statements ⟨#[], #[], []⟩ code
  have words : (Layout.code bits statements).words.toList = is.flatMap Instruction.words := by
    rw [codes.words, slots, List.map_map]
    exact List.map_id _
  have gaps : (Layout.code bits statements).gaps = [] := by
    rw [codes.gaps, slots, gapsFrom_words]
    rfl
  have small : ¬(memorySize : Int) < (Layout.code bits statements).words.size := by
    rw [← Array.length_toList, words]
    omega
  have done : ∃ m, layout bits memorySize ⟨statements.toArray, [], []⟩ =
      .enter (.milestone m) fun _ => .done (.ok ⟨(Layout.code bits statements).words,
        (Layout.code bits statements).placements, ⟨statements.toArray, [], []⟩⟩) := by
    have filled (bound : Nat) (p : Program) (d : Layout.Draft) :
        Layout.fillGaps bits p bound [] d = .done (.ok d) := by
      cases bound <;> rfl
    unfold layout
    dsimp only
    rw [executable, gaps, List.reverse_nil, filled, Report.bind_done]
    dsimp only
    rw [if_neg small]
    exact ⟨_, rfl⟩
  obtain ⟨m, same⟩ := done
  rw [same]
  exact ⟨_, rfl, .tell (.milestone m), words⟩

end

/-- Reassembling a disassembly is the identity, if every line shows an instruction: the texts of the
    lines are a program without problems, and its words are those disassembled. -/
theorem Assembly.ofSource_lines (config : Config) (symbols : SymbolTable) (name : String)
    {words : List Nat} {lines : List Line} (fit : ∀ word ∈ words, word < wordCount config.wordBits)
    (holds : words.length ≤ config.memorySize)
    (disassembled : Disassembly.lines symbols (Disassembly.integers words) 0 none = .ok lines)
    (shown : ∀ line ∈ lines, line.Shown) :
    let assembly :=
      Assembly.ofSource config ⟨name, "\n".intercalate (lines.map Line.text)⟩
    ∃ o, assembly.output = some o ∧ o.words.toList = words ∧
      assembly.log.problems = #[] ∧ assembly.log.notes = #[] := by
  have same : Disassembly.linesOf symbols 0 none (Disassembly.integers words) = lines := by
    unfold Disassembly.lines Disassembly.linesAt at disassembled
    exact Except.ok.inj disassembled
  subst same
  obtain ⟨is, valid, rfl, texts⟩ := Disassembly.linesOf_instructions symbols words 0 shown
  dsimp only
  rw [texts]
  obtain ⟨statements, value, quiet, meant⟩ := program_instructions
    ⟨name, "\n".intercalate (is.map Instruction.text)⟩ valid rfl config.wordBits
    config.maxLiteralDepth
  obtain ⟨o, laid, laidQuiet, same⟩ :=
    layout_instructions config.nine_le_wordBits meant fit holds
  rw [← value] at laid laidQuiet
  obtain ⟨output, problems, notes⟩ := output_of_quiet quiet laidQuiet laid
  exact ⟨o, output, same, problems, notes⟩

/-- A source without an index in front of a destination with one, a condition and actions. -/
theorem Assembly.ofSource_lines_kinds : ∃ lines,
    Disassembly.lines [] (Disassembly.integers [374, 481, 3, 5, 180, 73, 66]) 0 none = .ok lines ∧
      lines.map Line.text = ["a = mem", "mem 5 = stackptr 3", "?!Za", "-b", "!done"] ∧
      ∃ o, (Assembly.ofSource .standard
        ⟨"text", "\n".intercalate (lines.map Line.text)⟩).output = some o ∧
        o.words.toList = [374, 481, 3, 5, 180, 73, 66] := by
  have listed : Disassembly.lines [] (Disassembly.integers [374, 481, 3, 5, 180, 73, 66]) 0 none =
      .ok [⟨0, [374], "a = mem", ""⟩, ⟨1, [481, 3, 5], "mem 5 = stackptr 3", ""⟩,
        ⟨4, [180], "?!Za", ""⟩, ⟨5, [73], "-b", ""⟩, ⟨6, [66], "!done", ""⟩] := by
    decide +kernel
  obtain ⟨o, output, same, -⟩ := Assembly.ofSource_lines .standard [] "text"
    (by decide) (by decide) listed (by decide +kernel)
  exact ⟨_, listed, rfl, o, output, same⟩

end Asm

end NineBit

import NineBit.Disassembly
import NineBit.Proofs.Isa.Encoding

/-!
# Lines of a disassembly

A word that stands for an instruction makes a line with the written form of that instruction and
its operands (`lineOf_instruction`), if the image holds them all, and else a line that is cut short
(`lineOf_cut`). Any other word makes a line of data (`lineOf_data`). The line tells which of these
it is: data is written with `.word`, and a cut line has fewer words than its instruction takes
(`Line.isData`, `Line.isCut`); a line that is neither shows an instruction (`lineOf_shows`).
-/

namespace NineBit

namespace Disassembly

/-- A line of data. -/
def Line.isData (line : Line) : Bool := ".word ".toList.isPrefixOf line.text.toList

/-- A line that is cut short: its instruction takes more words than it has. -/
def Line.isCut (line : Line) : Bool :=
  !line.isData && decide (line.words.length < 1 + Isa.operandCount (Isa.low (line.words.headD 0)))

/-- The instruction of a word, if it can be written: a condition tests something. -/
def instruction? (word : Int) : Option Isa.Opcode :=
  (Isa.Opcode.ofWord? (Isa.low word)).filter fun
    | .condition c => !c.targets.isEmpty
    | _ => true

/-- The written form of an instruction with its operands. -/
def instructionText (opcode : Isa.Opcode) (operands : List Int) : String :=
  match opcode with
  | .movement source destination =>
    let first := operands.headD 0
    let second := if source.takesWord then (operands.drop 1).headD 0 else first
    s!"{destinationText destination second} = {sourceText source first}"
  | .condition c => c.text
  | .action x => x.text

theorem toList_suffixed (name : String) (operand : Int) :
    (s!"{name} {operand}").toList = name.toList ++ ' ' :: (toString operand).toList := by
  show (name ++ " " ++ toString operand).toList = _
  rw [String.toList_append, String.toList_append, List.append_assoc]
  rfl

section
variable {symbols : SymbolTable} {address word : Int} {rest : List Int} {opcode : Isa.Opcode}

theorem operandCount_movement {bits : Nat} {source : Isa.Source} {destination : Isa.Destination}
    (read : Isa.Opcode.ofWord? bits = some (.movement source destination)) :
    Isa.operandCount bits = operands source destination := by
  obtain ⟨kind, first, second⟩ := Isa.ofWord?_eq_movement.1 read
  unfold Isa.operandCount operands
  rw [if_pos kind, first, second]
  rfl

theorem operandCount_of_kind? {bits : Nat} {kind : Option Isa.Kind} (read : Isa.kind? bits = kind)
    (other : kind ≠ some .movement) : Isa.operandCount bits = 0 := by
  unfold Isa.operandCount
  rw [read, if_neg other]

theorem lineOf_of_kind? {kind : Option Isa.Kind} (read : Isa.kind? (Isa.low word) = kind)
    (other : kind ≠ some .movement) :
    lineOf symbols address word rest = singleLine symbols address word := by
  unfold lineOf
  dsimp only
  rw [read, if_neg other]

/-- The line of an instruction that the image holds with all of its operands. -/
theorem lineOf_instruction (read : instruction? word = some opcode)
    (enough : Isa.operandCount (Isa.low word) ≤ rest.length) :
    ∃ comment, lineOf symbols address word rest =
      ⟨address, word :: rest.take (Isa.operandCount (Isa.low word)),
        instructionText opcode (rest.take (Isa.operandCount (Isa.low word))), comment⟩ := by
  obtain ⟨found, valid⟩ := Option.filter_eq_some_iff.1 read
  cases opcode with
  | movement source destination =>
    have count := operandCount_movement found
    obtain ⟨kind, same, place⟩ := Isa.ofWord?_eq_movement.1 found
    rw [count] at enough ⊢
    unfold lineOf
    dsimp only
    rw [if_pos kind, place]
    dsimp only
    rw [same, if_neg (Nat.not_lt.2 enough)]
    exact ⟨_, rfl⟩
  | condition c =>
    obtain ⟨kind, rfl⟩ := Isa.ofWord?_eq_condition.1 found
    rw [lineOf_of_kind? kind (by decide), operandCount_of_kind? kind (by decide)]
    unfold singleLine
    dsimp only
    rw [kind]
    dsimp only
    rw [if_neg (by simpa using valid)]
    exact ⟨_, rfl⟩
  | action x =>
    obtain ⟨kind, action⟩ := Isa.ofWord?_eq_action.1 found
    rw [lineOf_of_kind? kind (by decide), operandCount_of_kind? kind (by decide)]
    unfold singleLine
    dsimp only
    rw [kind]
    dsimp only
    rw [action]
    exact ⟨_, rfl⟩

/-- The line of an instruction whose operands the image does not hold. -/
theorem lineOf_cut (read : instruction? word = some opcode)
    (short : rest.length < Isa.operandCount (Isa.low word)) :
    ∃ source destination, lineOf symbols address word rest =
      incompleteLine address source destination (word :: rest) := by
  obtain ⟨found, -⟩ := Option.filter_eq_some_iff.1 read
  cases opcode with
  | movement source destination =>
    rw [operandCount_movement found] at short
    obtain ⟨kind, same, place⟩ := Isa.ofWord?_eq_movement.1 found
    refine ⟨source, destination, ?_⟩
    unfold lineOf
    dsimp only
    rw [if_pos kind, place]
    dsimp only
    rw [same, if_pos short]
  | condition c =>
    rw [operandCount_of_kind? (Isa.ofWord?_eq_condition.1 found).1 (by decide)] at short
    exact absurd short (Nat.not_lt_zero _)
  | action x =>
    rw [operandCount_of_kind? (Isa.ofWord?_eq_action.1 found).1 (by decide)] at short
    exact absurd short (Nat.not_lt_zero _)

/-- The line of a word that stands for no instruction. -/
theorem lineOf_data (unread : instruction? word = none) :
    ∃ comment, lineOf symbols address word rest = dataLine address word comment := by
  have excluded := Option.filter_eq_none_iff.1 unread
  cases kind : Isa.kind? (Isa.low word) with
  | none =>
    rw [lineOf_of_kind? kind (by decide)]
    unfold singleLine
    dsimp only
    rw [kind]
    exact ⟨_, rfl⟩
  | some sort =>
    cases sort with
    | movement =>
      have place : Isa.destination? (Isa.low word) = none := by
        refine Option.eq_none_iff_forall_ne_some.2 fun destination found => ?_
        exact excluded _ (Isa.ofWord?_eq_movement.2 ⟨kind, rfl, found⟩) rfl
      unfold lineOf
      dsimp only
      rw [if_pos kind, place]
      exact ⟨_, rfl⟩
    | condition =>
      have nothing := excluded _ (Isa.ofWord?_eq_condition.2 ⟨kind, rfl⟩)
      rw [lineOf_of_kind? kind (by decide)]
      unfold singleLine
      dsimp only
      rw [kind]
      dsimp only
      rw [if_pos (by simpa using nothing)]
      exact ⟨_, rfl⟩
    | action =>
      have unassigned : Isa.action? (Isa.low word) = none := by
        refine Option.eq_none_iff_forall_ne_some.2 fun x found => ?_
        exact excluded _ (Isa.ofWord?_eq_action.2 ⟨kind, found⟩) rfl
      rw [lineOf_of_kind? kind (by decide)]
      unfold singleLine
      dsimp only
      rw [kind]
      dsimp only
      rw [unassigned]
      exact ⟨_, rfl⟩

end

/-! ## Texts of lines -/

theorem toList_destinationText (destination : Isa.Destination) (operand : Int) :
    (destinationText destination operand).toList = (bareName destination.name).toList ++
      if destination.takesWord then ' ' :: (toString operand).toList else [] := by
  unfold destinationText
  split
  · exact toList_suffixed _ _
  · rename_i other
    rw [List.append_nil]
    cases destination <;> first | rfl | exact absurd rfl other

theorem toList_sourceText (source : Isa.Source) (operand : Int) :
    (sourceText source operand).toList =
      if source = .literal then (toString operand).toList
      else (bareName source.name).toList ++
        if source.takesWord then ' ' :: (toString operand).toList else [] := by
  unfold sourceText
  split
  · rfl
  · split
    · exact toList_suffixed _ _
    · rename_i other
      rw [List.append_nil]
      cases source <;> first | rfl | exact absurd rfl other

theorem toList_movementText (source : Isa.Source) (destination : Isa.Destination)
    (first second : Int) :
    (s!"{destinationText destination second} = {sourceText source first}").toList =
      (destinationText destination second).toList ++
        ' ' :: '=' :: ' ' :: (sourceText source first).toList := by
  show (destinationText destination second ++ " = " ++ sourceText source first).toList = _
  rw [String.toList_append, String.toList_append, List.append_assoc]
  rfl

section
variable {line : Line}

theorem isData_dataLine (address word : Int) (comment : String) :
    (dataLine address word comment).isData = true := by
  have text : (dataLine address word comment).text.toList =
      ".word ".toList ++ (toString word).toList := by
    show (".word " ++ toString word).toList = _
    rw [String.toList_append]
  unfold Line.isData
  rw [text, List.isPrefixOf_iff_prefix]
  exact List.prefix_append _ _

theorem isData_of_head {c : Char} (head : line.text.toList.head? = some c) (other : c ≠ '.') :
    line.isData = false := by
  unfold Line.isData
  rw [Bool.eq_false_iff]
  intro front
  obtain ⟨rest, same⟩ := List.isPrefixOf_iff_prefix.1 front
  rw [← same] at head
  exact other (Option.some.inj head).symm

theorem bareName_destination (destination : Isa.Destination) :
    ∃ c rest, (bareName destination.name).toList = c :: rest ∧ c ≠ '.' := by
  cases destination <;> exact ⟨_, _, rfl, by decide⟩

theorem isData_instruction {opcode : Isa.Opcode} {operands : List Int}
    (text : line.text = instructionText opcode operands) : line.isData = false := by
  cases opcode with
  | movement source destination =>
    obtain ⟨c, rest, name, other⟩ := bareName_destination destination
    refine isData_of_head (c := c) ?_ other
    rw [text]
    unfold instructionText
    dsimp only
    rw [toList_movementText, toList_destinationText, name]
    rfl
  | condition c =>
    refine isData_of_head (c := '?') ?_ (by decide)
    rw [text]
    exact congrArg List.head? String.toList_ofList
  | action x =>
    cases x with
    | control c =>
      refine isData_of_head (c := '!') ?_ (by decide)
      rw [text]
      exact congrArg List.head? String.toList_append
    | register op r =>
      refine isData_of_head (c := op.symbol) ?_ (by cases op <;> decide)
      rw [text]
      exact congrArg List.head? String.toList_ofList

theorem isData_incompleteLine (address : Int) (source : Isa.Source)
    (destination : Isa.Destination) (words : List Int) :
    (incompleteLine address source destination words).isData = false := by
  obtain ⟨c, rest, name, other⟩ := bareName_destination destination
  refine isData_of_head (c := c) ?_ other
  have text : (incompleteLine address source destination words).text.toList =
      (bareName destination.name).toList ++ " = ".toList ++
        (if (bareName source.name).isEmpty then "???" else bareName source.name).toList := by
    show (_ ++ _ ++ _ : String).toList = _
    rw [String.toList_append, String.toList_append]
    rfl
  rw [text, name]
  rfl

end

section
variable {symbols : SymbolTable} {address word : Int} {rest : List Int} {opcode : Isa.Opcode}

theorem isCut_instruction {operands : List Int} {comment : String}
    (enough : operands.length = Isa.operandCount (Isa.low word)) :
    Line.isCut ⟨address, word :: operands, instructionText opcode operands, comment⟩ = false := by
  unfold Line.isCut
  rw [Bool.and_eq_false_iff]
  refine .inr (decide_eq_false ?_)
  rw [List.length_cons, List.headD_cons, enough]
  omega

theorem isCut_incomplete {source : Isa.Source} {destination : Isa.Destination}
    (short : rest.length < Isa.operandCount (Isa.low word)) :
    (incompleteLine address source destination (word :: rest)).isCut = true := by
  unfold Line.isCut
  rw [isData_incompleteLine, Bool.not_false, Bool.true_and, decide_eq_true_iff]
  show rest.length + 1 < 1 + Isa.operandCount (Isa.low word)
  omega

/-- A line that is neither data nor cut short shows the instruction of its first word, with all of
    its operands. -/
theorem lineOf_shows (shown : (lineOf symbols address word rest).isData = false)
    (whole : (lineOf symbols address word rest).isCut = false) :
    ∃ opcode, instruction? word = some opcode ∧
      Isa.operandCount (Isa.low word) ≤ rest.length := by
  cases read : instruction? word with
  | none =>
    obtain ⟨comment, same⟩ : ∃ comment, lineOf symbols address word rest = _ := lineOf_data read
    rw [same, isData_dataLine] at shown
    cases shown
  | some opcode =>
    refine ⟨opcode, rfl, Nat.not_lt.1 fun short => ?_⟩
    obtain ⟨source, destination, same⟩ : ∃ source destination,
        lineOf symbols address word rest = _ := lineOf_cut read short
    rw [same, isCut_incomplete short] at whole
    cases whole

end

end Disassembly

end NineBit

import Mathlib.Data.List.Forall2
import NineBit.Proofs.Asm.Apart
import NineBit.Proofs.Asm.Image
import NineBit.Proofs.Disassembly.Lines

/-!
# Instructions in writing

An instruction with its operands (`Asm.Instruction`) is written as a few tokens (`shown`), whose
texts make the text of its line in a disassembly (`Instruction.apart`). Read as a program, these
tokens are a statement with the same instruction and operands (`readStatement_instruction`), and
they say where they end: no instruction starts like a literal, so that a location without an index
takes none from the instruction behind it.
-/

namespace NineBit

/-! ## Conditions -/

namespace Isa.Condition

theorem eraseDups_of_nodup {targets : List Target} (nodup : targets.Nodup) :
    targets.eraseDups = targets := by
  induction targets with
  | nil => rfl
  | cons t rest ih =>
    obtain ⟨fresh, later⟩ := List.nodup_cons.1 nodup
    have kept : rest.filter (fun other => !other == t) = rest := by
      refine List.filter_eq_self.2 fun other member => ?_
      rw [Bool.not_eq_true', beq_eq_false_iff_ne]
      rintro rfl
      exact fresh member
    rw [List.eraseDups_cons, kept, ih later]

/-- Reading the written form of a condition gives the condition back. -/
theorem ofMarks_text {c : Condition} (nodup : c.targets.Nodup) :
    ofMarks (c.text.toList.drop 1) = c := by
  obtain ⟨invert, anyOf, targets⟩ := c
  have other (mark : Char) (foreign : Target.ofLetter? mark = none) :
      (targets.map Target.letter).contains mark = false := by
    rw [Bool.eq_false_iff]
    intro inside
    obtain ⟨t, -, rfl⟩ := List.mem_map.1 (List.contains_iff_mem.1 inside)
    rw [Target.ofLetter?_letter] at foreign
    cases foreign
  have letters : (targets.map Target.letter).filterMap Target.ofLetter? = targets := by
    rw [List.filterMap_map]
    have same : Target.ofLetter? ∘ Target.letter = some := funext Target.ofLetter?_letter
    rw [same, List.filterMap_some]
  have invertMark := other '!' (by decide)
  have anyMark := other '|' (by decide)
  have text : (Condition.mk invert anyOf targets).text.toList.drop 1 =
      (if invert then ['!'] else []) ++ (if anyOf then ['|'] else []) ++
        targets.map Target.letter := by
    unfold text
    rw [String.toList_ofList]
    rfl
  rw [text]
  unfold ofMarks
  have found : ((if invert then ['!'] else []) ++ (if anyOf then ['|'] else []) ++
        targets.map Target.letter).filterMap Target.ofLetter? = targets := by
    rw [List.filterMap_append, letters]
    cases invert <;> cases anyOf <;> rfl
  rw [found, eraseDups_of_nodup nodup]
  congr 1
  · rw [List.contains_append, invertMark]
    cases invert <;> cases anyOf <;> rfl
  · rw [List.contains_append, anyMark]
    cases invert <;> cases anyOf <;> rfl

theorem nodup_ofCode (code : Nat) : (ofCode code).targets.Nodup :=
  List.Nodup.sublist List.filter_sublist (by decide)

end Isa.Condition

namespace Asm

/-! ## Instructions -/

/-- An instruction with the words of its operands. -/
inductive Instruction where
  | movement (source : Isa.Source) (destination : Isa.Destination) (first second : Option Nat)
  | condition (c : Isa.Condition)
  | action (x : Isa.Action)

namespace Instruction

/-- A location has an operand if it takes one, and a condition tests something, each target once. -/
def Valid : Instruction → Prop
  | movement source destination first second =>
    source.takesWord = first.isSome ∧ destination.takesWord = second.isSome
  | condition c => c.targets ≠ [] ∧ c.targets.Nodup
  | action _ => True

/-- The instruction without its operands. -/
def opcode : Instruction → Isa.Opcode
  | movement source destination _ _ => .movement source destination
  | condition c => .condition c
  | action x => .action x

/-- The words of the operands: that of the source, then that of the destination. -/
def operands : Instruction → List Nat
  | movement _ _ first second => first.toList ++ second.toList
  | _ => []

/-- The word of the instruction and those of its operands. -/
def words (i : Instruction) : List Nat := i.opcode.word :: i.operands

/-- The token of an operand. -/
def shownOperand (operand : Option Nat) : List (Token.Kind × String) :=
  operand.toList.map fun n => (.number, toString n)

/-- The token of a source; an operand by itself has none. -/
def shownSource (source : Isa.Source) : List (Token.Kind × String) :=
  if source = .literal then [] else [(.location, Disassembly.bareName source.name)]

/-- The tokens of an instruction. -/
def shown : Instruction → List (Token.Kind × String)
  | movement source destination first second =>
    (.location, Disassembly.bareName destination.name) ::
      (shownOperand second ++ (.movement, "=") :: (shownSource source ++ shownOperand first))
  | condition c => [(.condition, c.text)]
  | action (.control c) => [(.action, (Isa.Action.control c).text)]
  | action (.register op r) => [(.registerAction, (Isa.Action.register op r).text)]

/-- The instruction in its written form. -/
def text (i : Instruction) : String :=
  Disassembly.instructionText i.opcode (i.operands.map fun (n : Nat) => (n : Int))

end Instruction

/-! ## Numbers -/

theorem Parser.digits_eq {text : List Char} (all : ∀ c ∈ text, c.isDigit = true) :
    digits 10 text = Nat.ofDigitChars 10 text 0 := by
  unfold digits Nat.ofDigitChars
  refine List.foldl_ext _ _ _ fun value c member => ?_
  have digit : Text.digitValue? 10 c = some (c.toNat - '0'.toNat) := by
    have range := all c member
    unfold Char.isDigit at range
    simp only [Bool.and_eq_true, decide_eq_true_eq] at range
    have le : c.toNat ≤ 57 := range.2
    have small : c.toNat - '0'.toNat < 10 := by
      have zero : '0'.toNat = 48 := rfl
      omega
    unfold Text.digitValue? Text.decimalDigit?
    rw [if_pos (all c member)]
    exact if_pos (decide_eq_true small)
  rw [digit, Nat.mul_comm]
  rfl

/-- The digits of a number have its value. -/
theorem Parser.numberValue_toString (n : Nat) : numberValue (toString n) = n := by
  have text : (toString n).toList = Nat.toDigits 10 n := String.toList_ofList
  have all (c : Char) (member : c ∈ Nat.toDigits 10 n) : c.isDigit = true :=
    Nat.isDigit_of_mem_toDigits (by decide) (by decide) member
  have value : digits 10 (Nat.toDigits 10 n) = n :=
    (digits_eq all).trans (Nat.ofDigitChars_toDigits (by decide) (by decide))
  unfold numberValue
  rw [text]
  split
  · rename_i same
    rw [same] at all
    exact absurd (all '\'' List.mem_cons_self) (by decide)
  · rename_i same
    rw [same] at all
    exact absurd (all 'x' (List.mem_cons_of_mem _ List.mem_cons_self)) (by decide)
  · rename_i same
    rw [same] at all
    exact absurd (all 'b' (List.mem_cons_of_mem _ List.mem_cons_self)) (by decide)
  · exact value

theorem Token.Kind.alone_number (n : Nat) : number.Alone (toString n).toList := by
  have text : (toString n).toList = Nat.toDigits 10 n := String.toList_ofList
  rw [text]
  exact alone_of_token (Lexeme.readAlone_digits Nat.toDigits_ne_nil fun c member =>
    Nat.isDigit_of_mem_toDigits (by decide) (by decide) member)

/-! ## Writing -/

namespace Instruction

/-- The text of an operand behind the name of its location. -/
def operandText : Option Nat → List Char
  | none => []
  | some n => ' ' :: (toString n).toList

theorem ends_space (text : List Char) : Lexeme.Ends (' ' :: text) := by
  rintro c member
  cases member
  rfl

theorem ends_operandText (operand : Option Nat) : Lexeme.Ends (operandText operand) := by
  cases operand with
  | none => exact fun _ none => nomatch none
  | some n => exact ends_space _

theorem apart_operand (operand : Option Nat) :
    Apart (operandText operand) (shownOperand operand) := by
  cases operand with
  | none => exact .nil
  | some n => exact .separator rfl (.one (Token.Kind.alone_number n))

/-- A location with its operand. -/
theorem apart_location {word : String} (names : Isa.isLocationWord word = true)
    (operand : Option Nat) :
    Apart (word.toList ++ operandText operand) ((.location, word) :: shownOperand operand) :=
  (Apart.one (Token.Kind.alone_location names)).append (ends_operandText operand)
    (apart_operand operand)

/-- A source that takes no operand is written without one. -/
theorem sourceText_eq {source : Isa.Source} (takes : source.takesWord = false)
    (operand other : Int) :
    Disassembly.sourceText source operand = Disassembly.sourceText source other := by
  have named : source ≠ .literal := by
    rintro rfl
    cases takes
  unfold Disassembly.sourceText
  rw [if_neg named, if_neg named, takes]
  rfl

theorem toList_text_movement {source : Isa.Source} {destination : Isa.Destination}
    {first second : Option Nat} (valid : (movement source destination first second).Valid) :
    (movement source destination first second).text.toList =
      ((Disassembly.bareName destination.name).toList ++ operandText second) ++
        ' ' :: '=' :: ' ' :: (Disassembly.sourceText source (first.getD 0 : Nat)).toList := by
  obtain ⟨takesFirst, takesSecond⟩ := valid
  show (Disassembly.instructionText (.movement source destination)
    ((first.toList ++ second.toList).map fun (n : Nat) => (n : Int))).toList = _
  unfold Disassembly.instructionText
  dsimp only
  rw [Disassembly.toList_movementText, Disassembly.toList_destinationText, takesFirst, takesSecond]
  cases first with
  | none =>
    rw [sourceText_eq takesFirst _ (0 : Nat)]
    cases second <;> rfl
  | some n => cases second <;> rfl

theorem apart_source {source : Isa.Source} {first : Option Nat}
    (takes : source.takesWord = first.isSome) :
    Apart (Disassembly.sourceText source (first.getD 0 : Nat)).toList
      (shownSource source ++ shownOperand first) := by
  rw [Disassembly.toList_sourceText]
  unfold shownSource
  by_cases literal : source = .literal
  · rw [if_pos literal, if_pos literal]
    subst literal
    cases first with
    | none => cases takes
    | some n => exact .one (Token.Kind.alone_number n)
  · have names : Isa.isLocationWord (Disassembly.bareName source.name) = true := by
      cases source <;> first | exact absurd rfl literal | decide
    rw [if_neg literal, if_neg literal, takes]
    have written := apart_location names first
    cases first <;> exact written

theorem spells_condition {c : Isa.Condition} (some : c.targets ≠ []) :
    Spelling.Condition c.text.toList := by
  obtain ⟨invert, anyOf, targets⟩ := c
  have text : (Isa.Condition.mk invert anyOf targets).text.toList =
      '?' :: (((if invert then ['!'] else []) ++ if anyOf then ['|'] else []) ++
        targets.map Isa.Target.letter) := String.toList_ofList
  rw [text]
  refine .mk ?_ (fun none => some (List.map_eq_nil_iff.1 none)) fun c member => ?_
  · cases invert <;> cases anyOf <;> decide
  · obtain ⟨t, -, rfl⟩ := List.mem_map.1 member
    cases t <;> decide

/-- The text of an instruction is that of its tokens. -/
theorem apart (i : Instruction) (valid : i.Valid) : Apart i.text.toList i.shown := by
  cases i with
  | movement source destination first second =>
    have names : Isa.isLocationWord (Disassembly.bareName destination.name) = true := by
      cases destination <;> decide
    have sign : Apart (' ' :: '=' :: ' ' ::
        (Disassembly.sourceText source (first.getD 0 : Nat)).toList)
        ((.movement, "=") :: (shownSource source ++ shownOperand first)) :=
      .separator rfl (.token (Token.Kind.alone_of_token Lexeme.readAlone_movement)
        (ends_space _) (.separator rfl (apart_source valid.1)))
    rw [toList_text_movement valid]
    exact (apart_location names second).append (ends_space _) sign
  | condition c =>
    exact .one (Token.Kind.alone_of_token (Lexeme.readAlone_condition (spells_condition valid.1)))
  | action x =>
    cases x with
    | control c => exact .one (Token.Kind.alone_action c)
    | register op r =>
      exact .one (Token.Kind.alone_of_token (Lexeme.readAlone_registerAction op r))

/-! ## Reading -/

/-- The slots of the words of an instruction. -/
def slots (bits : Nat) (i : Instruction) : List Slot :=
  .word i.opcode.word :: i.operands.map fun n => .word (n % wordCount bits)

/-- A statement says what an instruction says. -/
structure Says (bits : Nat) (i : Instruction) (s : Statement) : Prop where
  code : s.isConstant = false
  complete : s.body.Complete
  slots : s.slots bits = i.slots bits

/-- A literal is the number of an operand, or there is neither. -/
inductive OperandIs : Option Nat → Option Literal → Prop where
  | none : OperandIs .none .none
  | some (n : Nat) (span : Span) : OperandIs (.some n) (.some (.number n span))

theorem OperandIs.isSome {operand : Option Nat} {literal : Option Literal}
    (is : OperandIs operand literal) : operand.isSome = literal.isSome := by
  cases is <;> rfl

theorem OperandIs.slots {operand : Option Nat} {literal : Option Literal}
    (is : OperandIs operand literal) (bits : Nat) :
    literal.toList.map (Literal.operand bits) =
      operand.toList.map fun n => .word (n % wordCount bits) := by
  cases is <;> rfl

/-- What stands here is no literal. -/
def Closed (tokens : List Token) : Prop :=
  ∀ token ∈ tokens.head?, Parser.startsLiteral token = false

open NineBit.Asm.Parser (readLiteral readSource readMovement readStatement locationName)

section
variable {bits : Nat} {limit : Int} {own behind : List Token}

theorem readLiteral_operand {operand : Option Nat} (shown : own.map Token.shown =
    shownOperand operand) (closed : Closed behind) (s : Parser.State) (last : Token) :
    ∃ literal demands next, readLiteral limit s ⟨last, own ++ behind⟩ =
      ⟨literal, { s with demands := demands }, ⟨next, behind⟩⟩ ∧ OperandIs operand literal := by
  cases operand with
  | none =>
    obtain rfl := List.map_eq_nil_iff.1 shown
    refine ⟨none, s.demands, last, ?_, .none⟩
    unfold readLiteral
    cases behind with
    | nil => rfl
    | cons token rest => exact if_neg (by rw [closed token rfl]; decide)
  | some n =>
    obtain ⟨token, rfl, same⟩ := List.map_eq_singleton_iff.1 shown
    obtain ⟨kind, text⟩ := Prod.mk.inj same
    refine ⟨some (.number n token.span), (s.askNumber token).demands, token, ?_,
      .some n token.span⟩
    unfold readLiteral Parser.startsLiteral Parser.readLiteralFrom
    rw [List.cons_append]
    dsimp only
    rw [kind, text, Parser.numberValue_toString]
    rfl

theorem locationName_source (source : Isa.Source) :
    locationName (Disassembly.bareName source.name) source.takesWord = source.name := by
  cases source <;> rfl

theorem locationName_destination (destination : Isa.Destination) :
    locationName (Disassembly.bareName destination.name) destination.takesWord =
      destination.name := by
  cases destination <;> rfl

theorem readSource_shown {source : Isa.Source} {first : Option Nat}
    (takes : source.takesWord = first.isSome)
    (shown : own.map Token.shown = shownSource source ++ shownOperand first)
    (closed : Closed behind) (s : Parser.State) (sign : Token) :
    ∃ part demands, readSource limit s ⟨sign, own ++ behind⟩ = (some part, part.reading) ∧
      part.reading.state = { s with demands := demands } ∧ part.reading.cursor.rest = behind ∧
      OperandIs first part.reading.literal ∧
      Isa.Source.ofName? (locationName part.word part.reading.literal.isSome) = some source := by
  unfold shownSource at shown
  by_cases literal : source = .literal
  · subst literal
    cases first with
    | none => cases takes
    | some n =>
      obtain ⟨token, rfl, same⟩ := List.map_eq_singleton_iff.1 shown
      obtain ⟨kind, -⟩ := Prod.mk.inj same
      obtain ⟨operand, demands, next, read, is⟩ := readLiteral_operand shown closed s sign
      refine ⟨⟨"", token, ⟨operand, { s with demands := demands }, ⟨next, behind⟩⟩⟩, demands, ?_,
        rfl, rfl, is, ?_⟩
      · unfold readSource
        rw [read, List.cons_append]
        dsimp only
        rw [kind, if_neg (by decide), ← is.isSome]
        rfl
      · rw [← is.isSome]
        rfl
  · rw [if_neg literal] at shown
    obtain ⟨word, rest, rfl, same, shown⟩ := List.map_eq_cons_iff.1 shown
    obtain ⟨kind, text⟩ := Prod.mk.inj same
    obtain ⟨operand, demands, next, read, is⟩ := readLiteral_operand shown closed s word
    refine ⟨⟨word.text, word, ⟨operand, { s with demands := demands }, ⟨next, behind⟩⟩⟩, demands,
      ?_, rfl, rfl, is, ?_⟩
    · unfold readSource
      rw [List.cons_append]
      dsimp only
      rw [kind, if_pos rfl, read]
    · rw [← is.isSome, ← takes, text, locationName_source, Isa.Source.ofName?_name]

/-- Read as a program, an instruction is a statement that says the same. -/
theorem readStatement_shown {i : Instruction} (valid : i.Valid)
    (shown : own.map Token.shown = i.shown) (closed : Closed behind) {s : Parser.State}
    (free : s.waiting = none) :
    ∃ token rest statement demands next, own = token :: rest ∧
      readStatement limit s token (rest ++ behind) =
        ({ s with statements := s.statements.push statement, demands := demands },
          ⟨next, behind⟩) ∧
      i.Says bits statement := by
  cases i with
  | movement source destination first second =>
    obtain ⟨target, rest, rfl, same, shown⟩ := List.map_eq_cons_iff.1 shown
    obtain ⟨kind, text⟩ := Prod.mk.inj same
    obtain ⟨index, rest, rfl, indexed, shown⟩ := List.map_eq_append_iff.1 shown
    obtain ⟨sign, rest, rfl, same, shown⟩ := List.map_eq_cons_iff.1 shown
    obtain ⟨equals, -⟩ := Prod.mk.inj same
    have apart : Closed (sign :: (rest ++ behind)) := by
      rintro token member
      cases member
      unfold Parser.startsLiteral
      rw [equals]
      decide
    obtain ⟨literal, asked, last, read, is⟩ := readLiteral_operand indexed apart s target
    obtain ⟨part, demands, source?, state, follows, own, named⟩ :=
      readSource_shown valid.1 shown closed { s with demands := asked } sign
    refine ⟨target, _, ⟨s.statements.size, target.span.through part.reading.cursor.last.span, none,
      .movement destination source literal part.reading.literal⟩, demands,
      part.reading.cursor.last, rfl, ?_,
      ⟨rfl, ⟨valid.2.trans is.isSome, valid.1.trans own.isSome⟩, ?_⟩⟩
    · unfold readStatement readMovement
      rw [kind, List.append_assoc, List.cons_append, read]
      dsimp only
      rw [if_pos equals, source?]
      dsimp only
      unfold Parser.addMovement
      rw [text, ← is.isSome, ← valid.2, locationName_destination, Isa.Destination.ofName?_name,
        named]
      dsimp only
      rw [state, ← follows]
      exact congrArg (·, _)
        (Parser.addStatement_of_free (s := { s with demands := demands }) free)
    · show Slot.word _ :: List.map _ (_ ++ _) = Slot.word _ :: List.map _ (_ ++ _)
      rw [List.map_append, List.map_append, own.slots bits, is.slots bits]
      rfl
  | condition c =>
    obtain ⟨token, rfl, same⟩ := List.map_eq_singleton_iff.1 shown
    obtain ⟨kind, text⟩ := Prod.mk.inj same
    refine ⟨token, [], ⟨s.statements.size, token.span, none, .condition c⟩, s.demands, token, rfl,
      ?_, ⟨rfl, valid.1, rfl⟩⟩
    unfold readStatement
    rw [kind, text, Isa.Condition.ofMarks_text valid.2]
    exact congrArg (·, _) (Parser.addStatement_of_free free)
  | action x =>
    cases x with
    | control c =>
      obtain ⟨token, rfl, same⟩ := List.map_eq_singleton_iff.1 shown
      obtain ⟨kind, text⟩ := Prod.mk.inj same
      refine ⟨token, [], ⟨s.statements.size, token.span, none, .action (.control c)⟩, s.demands,
        token, rfl, ?_, ⟨rfl, trivial, rfl⟩⟩
      unfold readStatement Parser.State.addAction
      rw [kind, text, Parser.controlAction?_text]
      exact congrArg (·, _) (Parser.addStatement_of_free free)
    | register op r =>
      obtain ⟨token, rfl, same⟩ := List.map_eq_singleton_iff.1 shown
      obtain ⟨kind, text⟩ := Prod.mk.inj same
      refine ⟨token, [], ⟨s.statements.size, token.span, none, .action (.register op r)⟩,
        s.demands, token, rfl, ?_, ⟨rfl, trivial, rfl⟩⟩
      unfold readStatement Parser.State.addAction
      rw [kind, text, Parser.registerAction?_text]
      exact congrArg (·, _) (Parser.addStatement_of_free free)

/-- No instruction starts like a literal. -/
theorem shown_start (i : Instruction) :
    ∃ kind text rest, i.shown = (kind, text) :: rest ∧
      ∀ span, Parser.startsLiteral ⟨kind, text, span⟩ = false := by
  cases i with
  | movement | condition => exact ⟨_, _, _, rfl, fun _ => rfl⟩
  | action x => cases x <;> exact ⟨_, _, _, rfl, fun _ => rfl⟩

theorem closed_of_shown {is : List Instruction} {tokens : List Token}
    (shown : tokens.map Token.shown = is.flatMap Instruction.shown) : Closed tokens := by
  cases is with
  | nil =>
    obtain rfl := List.map_eq_nil_iff.1 shown
    exact fun _ none => nomatch none
  | cons i rest =>
    obtain ⟨kind, text, more, same, other⟩ := i.shown_start
    rw [List.flatMap_cons, same] at shown
    obtain ⟨token, others, rfl, first, -⟩ := List.map_eq_cons_iff.1 shown
    rintro token member
    cases member
    cases first
    exact other token.span

/-- Instructions one after the other are read as as many statements. -/
theorem readStatements_shown (is : List Instruction) (valid : ∀ i ∈ is, i.Valid) :
    ∀ {tokens : List Token} {s : Parser.State},
      tokens.map Token.shown = is.flatMap Instruction.shown → s.waiting = none →
      ∃ (statements : List Statement) (demands : List (Nat × Demand)),
        Parser.readStatements limit s tokens =
            { s with statements := s.statements ++ statements.toArray, demands := demands } ∧
          List.Forall₂ (Says bits) is statements := by
  induction is with
  | nil =>
    intro tokens s shown free
    obtain rfl := List.map_eq_nil_iff.1 shown
    refine ⟨[], s.demands, ?_, .nil⟩
    unfold Parser.readStatements
    simp
  | cons i rest ih =>
    intro tokens s shown free
    rw [List.flatMap_cons] at shown
    obtain ⟨own, behind, rfl, here, later⟩ := List.map_eq_append_iff.1 shown
    obtain ⟨token, more, statement, asked, next, rfl, read, meant⟩ :=
      readStatement_shown (valid i List.mem_cons_self) here (closed_of_shown later) free
    obtain ⟨statements, demands, done, each⟩ :=
      ih (fun j member => valid j (List.mem_cons_of_mem _ member))
        (s := { s with statements := s.statements.push statement, demands := asked }) later free
    refine ⟨statement :: statements, demands, ?_, .cons meant each⟩
    unfold Parser.readStatements
    rw [List.cons_append]
    dsimp only
    rw [read]
    dsimp only
    rw [done]
    simp

end

end Instruction

end Asm

end NineBit

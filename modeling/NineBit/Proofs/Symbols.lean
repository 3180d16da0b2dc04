import Mathlib.Data.List.TakeWhile
import NineBit.Proofs.Asm.Assembling
import NineBit.Proofs.Asm.Names
import NineBit.Proofs.SymbolFile
import NineBit.Proofs.Text.Readback

/-!
# Symbols in a file

A symbol file is read as the symbols it was written for (`SymbolFile.read_write`), as long as no
name is empty or has a blank or the mark of a remark in it. No name that the lexer makes has one,
since these are no word characters (`Text.not_isWord_of_isBlank`), and neither has the form in which
a label is shown (`isField_display`). The file lists the symbols by name, and of the names of an
address its reader goes by the first one, which is thus the least (`lookup_eq_some_iff_least`).
-/

namespace NineBit

namespace Text

/-! ## Blanks and word characters -/

/-- The code points of the blanks. -/
def blankCodes : List Nat :=
  List.range' 9 5 ++ List.range' 0x1c 5 ++ [0x85, 0xa0, 0x1680] ++ List.range' 0x2000 11 ++
    [0x2028, 0x2029, 0x202f, 0x205f, 0x3000]

section
variable {c : Char}

theorem toNat_mem_blankCodes (blank : isBlank c = true) : c.toNat ∈ blankCodes := by
  unfold isBlank at blank
  simp only [Bool.or_eq_true, Bool.and_eq_true, decide_eq_true_eq, beq_iff_eq] at blank
  simp only [blankCodes, List.mem_append, List.mem_range'_1, List.mem_cons, List.not_mem_nil,
    or_false]
  omega

/-- No blank is a letter, a number or an underscore. -/
theorem not_isWord_of_isBlank (blank : isBlank c = true) : isWord c = false := by
  have none : ∀ n ∈ blankCodes, isWord (Char.ofNat n) = false := by decide +kernel
  rw [← Char.ofNat_toNat c]
  exact none _ (toNat_mem_blankCodes blank)

/-- What ends a line is a blank. -/
theorem isBlank_of_isLineEnd (ends : isLineEnd c = true) : isBlank c = true := by
  unfold isLineEnd at ends
  unfold isBlank
  simp only [Bool.or_eq_true, Bool.and_eq_true, decide_eq_true_eq, beq_iff_eq] at ends ⊢
  omega

theorem isDigit_of_ascii (digit : c.isDigit = true) : isDigit c = true := by
  unfold isDigit decimalDigit?
  rw [if_pos digit]
  rfl

end

/-! ## Cutting a line -/

/-- A text with no blank at either end is left as it is. -/
theorem trim_eq_self {text : String} (first : ∀ c ∈ text.toList.head?, isBlank c = false)
    (last : ∀ c ∈ text.toList.getLast?, isBlank c = false) : trim text = text := by
  unfold trim
  rw [dropWhile_of_head first, dropWhile_of_head (by rwa [List.head?_reverse]),
    List.reverse_reverse, String.ofList_toList]

end Text

namespace SymbolFile

open Text

/-! ## One line -/

/-- A text that a line may hold between its blanks. -/
structure IsField (text : String) : Prop where
  some : text ≠ ""
  plain : ∀ c ∈ text.toList, isBlank c = false ∧ c ≠ '#'

/-- The line of a symbol without its end. -/
def lineText (name : String) (address : Nat) : String := s!"{name} {address}"

theorem toList_lineText (name : String) (address : Nat) :
    (lineText name address).toList = name.toList ++ ' ' :: (toString address).toList := by
  show (name ++ " " ++ toString address).toList = _
  rw [String.toList_append, String.toList_append, List.append_assoc]
  rfl

/-- The digits of an address. -/
theorem mem_toString {address : Nat} {c : Char} (member : c ∈ (toString address).toList) :
    c ∈ Nat.toDigits 10 address := Nat.toList_repr ▸ member

/-- No digit of a number is a blank or the mark of a remark. -/
theorem plain_of_mem_toDigits {n : Nat} {c : Char} (member : c ∈ Nat.toDigits 10 n) :
    isBlank c = false ∧ c ≠ '#' := by
  obtain ⟨blank, -, marks⟩ := (isDigitChar_of_mem (by decide) (by decide) member).apart
  exact ⟨blank, fun same => marks (by simp [same])⟩

theorem isField_address (address : Nat) : IsField (toString address) where
  some empty := by
    have none : (toString address).toList = [] := by rw [empty]; rfl
    exact Nat.toDigits_ne_nil (Nat.toList_repr.symm.trans none)
  plain _ member := plain_of_mem_toDigits (mem_toString member)

section
variable {name : String} (address : Nat)

theorem IsField.toList_ne_nil (field : IsField name) : name.toList ≠ [] :=
  fun none => field.some (String.toList_eq_nil_iff.1 none)

/-- The parts of a symbol's line are its name and its address. -/
theorem fields_lineText (field : IsField name) :
    fields (lineText name address) = [name, toString address] := by
  have digits := isField_address address
  have filled {text : String} (field : IsField text) : text.toList.isEmpty = false :=
    List.isEmpty_eq_false_iff.2 field.toList_ne_nil
  have cut : pieces isBlank (lineText name address).toList =
      [name.toList, (toString address).toList] := by
    rw [toList_lineText, pieces_append (by decide) _ fun c member => (field.plain c member).1,
      pieces_whole fun c member => (digits.plain c member).1]
  unfold fields
  rw [cut]
  simp only [List.filter_cons, List.filter_nil, filled field, filled digits, Bool.not_false,
    if_true, List.map_cons, List.map_nil, String.ofList_toList]

/-- A symbol's line has nothing that is left out. -/
theorem content_lineText (field : IsField name) :
    content (lineText name address) = lineText name address := by
  have digits := isField_address address
  have plain (c : Char) (member : c ∈ (lineText name address).toList) : c ≠ '#' := by
    rw [toList_lineText] at member
    rcases List.mem_append.1 member with early | late
    · exact (field.plain c early).2
    · rcases List.mem_cons.1 late with rfl | digit
      · decide
      · exact (digits.plain c digit).2
  have whole : before '#' (lineText name address) = lineText name address := by
    unfold before
    rw [List.takeWhile_eq_self_iff.2 fun c member => bne_iff_ne.2 (plain c member),
      String.ofList_toList]
  unfold content
  rw [whole]
  apply trim_eq_self
  · intro c first
    rw [toList_lineText, List.head?_append_of_ne_nil _ field.toList_ne_nil] at first
    exact (field.plain c (List.mem_of_mem_head? first)).1
  · intro c last
    rw [toList_lineText, List.getLast?_append_of_ne_nil _ (List.cons_ne_nil _ _),
      List.getLast?_cons_of_ne_nil digits.toList_ne_nil] at last
    exact (digits.plain c (List.mem_of_mem_getLast? last)).1

/-- A symbol's line is read as the symbol. -/
theorem readLine_lineText (field : IsField name) (number : Nat) :
    readLine number (lineText name address) = .ok (some ((address : Int), name)) := by
  have same := content_lineText address field
  have filled : (lineText name address).isEmpty = false := by
    refine Bool.eq_false_iff.2 fun empty => ?_
    have none : (lineText name address).toList = [] := by rw [String.isEmpty_iff.1 empty]; rfl
    rw [toList_lineText] at none
    exact field.toList_ne_nil (List.append_eq_nil_iff.1 none).1
  have digits : (toString address).toList.all isDigit = true :=
    List.all_eq_true.2 fun c member =>
      isDigit_of_ascii (Nat.isDigit_of_mem_toDigits (by decide) (by decide) (mem_toString member))
  have value : readInt? .decimal (toString address) = some (address : Int) := by
    have written : writeInt 10 0 (address : Int) = toString address := by
      apply String.toList_inj.1
      unfold writeInt
      dsimp only
      rw [if_neg (Int.not_lt.2 (Int.natCast_nonneg address)), Nat.zero_sub, Nat.zero_sub]
      exact String.toList_ofList.trans Nat.toList_repr.symm
    rw [← written]
    exact readInt?_writeInt (.inl ⟨rfl, rfl⟩) 0 address
  unfold content at same
  unfold readLine
  dsimp only
  rw [same, filled, fields_lineText address field]
  dsimp only
  rw [if_neg Bool.false_ne_true, if_pos digits, value]

end

/-! ## A file -/

theorem readLines_lineText {symbols : List (String × Nat)}
    (fields : ∀ entry ∈ symbols, IsField entry.1) (number : Nat) :
    readLines number (symbols.map fun entry => lineText entry.1 entry.2) =
      .ok (symbols.map fun entry => ((entry.2 : Int), entry.1)) := by
  induction symbols generalizing number with
  | nil => rfl
  | cons entry rest ih =>
    have later := ih (fun other member => fields other (List.mem_cons_of_mem _ member)) (number + 1)
    rw [List.map_cons]
    unfold readLines
    rw [readLine_lineText entry.2 (fields entry List.mem_cons_self)]
    dsimp only
    rw [later]
    rfl

theorem not_isLineEnd_lineText {name : String} (field : IsField name) {address : Nat} {c : Char}
    (member : c ∈ (lineText name address).toList) : isLineEnd c = false := by
  have apart {c : Char} (blank : isBlank c = false) : isLineEnd c = false :=
    Bool.eq_false_iff.2 fun ends => Bool.eq_false_iff.1 blank (isBlank_of_isLineEnd ends)
  rw [toList_lineText] at member
  rcases List.mem_append.1 member with early | late
  · exact apart (field.plain c early).1
  · rcases List.mem_cons.1 late with rfl | digit
    · decide
    · exact apart ((isField_address address).plain c digit).1

/-- The lines of a file: the two remarks at its top, and a line for each symbol. -/
theorem lines_write {symbols : List (String × Nat)}
    (fields : ∀ entry ∈ symbols, IsField entry.1) :
    lines (write symbols) = "# Symbol table" :: "# Generated by s9basm" ::
      symbols.map fun entry => lineText entry.1 entry.2 := by
  have text : write symbols = String.join (("# Symbol table" :: "# Generated by s9basm" ::
      symbols.map fun entry => lineText entry.1 entry.2).map (· ++ "\n")) := by
    unfold write
    rw [List.map_cons, List.map_cons, List.map_map, String.join_cons, String.join_cons,
      ← String.append_assoc]
    rfl
  have plain {l : String} (all : (l.toList.all fun c => !isLineEnd c) = true) (c : Char)
      (inside : c ∈ l.toList) : isLineEnd c = false := by
    have kept := List.all_eq_true.1 all c inside
    rwa [Bool.not_eq_true'] at kept
  rw [text]
  apply lines_join
  intro l member c inside
  rcases List.mem_cons.1 member with rfl | member
  · exact plain (by decide) c inside
  rcases List.mem_cons.1 member with rfl | member
  · exact plain (by decide) c inside
  obtain ⟨entry, listed, rfl⟩ := List.mem_map.1 member
  exact not_isLineEnd_lineText (fields entry listed) inside

/-- A file is read as the symbols it was written for. -/
theorem read_write {symbols : List (String × Nat)} (fields : ∀ entry ∈ symbols, IsField entry.1) :
    read (write symbols) = .ok (symbols.map fun entry => ((entry.2 : Int), entry.1)) := by
  unfold read
  rw [lines_write fields]
  unfold readLines
  rw [readLine_empty (by decide)]
  unfold readLines
  rw [readLine_empty (by decide)]
  exact readLines_lineText fields _

end SymbolFile

/-! ## The names of a table -/

/-- In a table by ascending names the first name of an address is the least one. -/
theorem lookup_eq_some_iff_least {table : SymbolTable}
    (sorted : table.Pairwise fun x y => x.2 ≤ y.2) {address : Int} {name : String} :
    table.lookup address = some name ↔
      (address, name) ∈ table ∧ ∀ other, (address, other) ∈ table → name ≤ other := by
  have leads {name : String} (found : table.lookup address = some name) :
      (address, name) ∈ table ∧ ∀ other, (address, other) ∈ table → name ≤ other := by
    obtain ⟨before, after, rfl, apart⟩ := List.lookup_eq_some_iff.1 found
    refine ⟨List.mem_append_right _ List.mem_cons_self, fun other member => ?_⟩
    rcases List.mem_append.1 member with early | late
    · exact absurd rfl (bne_iff_ne.1 (apart _ early))
    · rcases List.mem_cons.1 late with same | later
      · cases same
        exact String.le_refl _
      · exact (List.pairwise_cons.1 (List.pairwise_append.1 sorted).2.1).1 _ later
  refine ⟨leads, ?_⟩
  rintro ⟨member, least⟩
  obtain ⟨other, found⟩ := Option.isSome_iff_exists.1
    (List.lookup_isSome_iff.2 ⟨_, member, beq_self_eq_true _⟩)
  obtain ⟨there, below⟩ := leads found
  rwa [String.le_antisymm (least other there) (below name member)]

namespace Asm

/-! ## The form in which a label is shown -/

namespace Label

/-- A path consists of digits and dots. -/
theorem plain_pathText (block : BlockPath) :
    ∀ c ∈ pathText block, Text.isBlank c = false ∧ c ≠ '#' := by
  induction block with
  | nil => exact fun c member => absurd member List.not_mem_nil
  | cons n rest ih =>
    intro c member
    cases rest with
    | nil =>
      rw [pathText, List.map_singleton, List.intercalate_singleton] at member
      exact SymbolFile.plain_of_mem_toDigits member
    | cons m rest =>
      rw [pathText_cons_cons] at member
      rcases List.mem_append.1 member with first | later
      · exact SymbolFile.plain_of_mem_toDigits first
      · rcases List.mem_cons.1 later with rfl | tail
        · decide
        · exact ih c tail

end Label

open SymbolFile (IsField)

theorem IsName.isField {name : String} (isName : IsName name) : IsField name where
  some := isName.some
  plain c member := by
    have word := isName.word c member
    refine ⟨?_, ?_⟩
    · refine Bool.eq_false_iff.2 fun blank => ?_
      rw [Text.not_isWord_of_isBlank blank] at word
      cases word
    · rintro rfl
      exact absurd word (by decide)

/-- A label is shown in a form that a line of a symbol file may hold. -/
theorem isField_display {l : Label} (isName : IsName l.name) : IsField l.display := by
  have name := isName.isField
  rw [Label.display_eq]
  split
  · exact name
  · refine ⟨fun empty => ?_, fun c member => ?_⟩
    · have key := Label.separator_mem_key l
      rw [empty] at key
      exact absurd key List.not_mem_nil
    · rw [Label.toList_key] at member
      rcases List.mem_append.1 member with path | rest
      · exact Label.plain_pathText l.block c path
      · rcases List.mem_cons.1 rest with rfl | inside
        · decide
        · exact name.plain c inside

/-! ## The names in a program -/

theorem keeps_named : Expansion.Keeps fun token => token.Known ∧ token.Named := by
  rintro token register ⟨known, -⟩ kind names
  obtain ⟨made, plain⟩ := keeps_known token register known kind names
  have other : Token.Kind.registerAction ≠ .label ∧ Token.Kind.registerAction ≠ .reference := by
    decide
  exact ⟨⟨made, .other other.1 other.2⟩, plain⟩

/-- Calls bring no other names into a program than those that the lexer makes. -/
theorem named_expanded (source : Source) : ∀ token ∈ Assembly.expanded source, token.Named := by
  intro token member
  obtain ⟨known, defined⟩ := known_lex source
  have bodies : ∀ m ∈ (lex source).value.macros, m.All fun token => token.Known ∧ token.Named := by
    intro m mine token inside
    obtain ⟨_, _, made⟩ := (from_lex source).2 m mine token inside
    exact ⟨defined m mine token inside, made.named⟩
  have all := all_expand keeps_named bodies fun token inside =>
    ⟨known token inside, named_lex source token inside⟩
  exact (all token member).1.2

/-! ## The symbols of an image -/

namespace Output

variable {o : Output}

/-- A label is declared for a statement that was put at an address. -/
def Carries (o : Output) (l : Label) (address : Nat) : Prop :=
  ∃ id, (l, id) ∈ o.program.labels ∧ o.addressOfId? id = some address

/-- A table has a name for each address that carries a label, the least one by code points of those
    in which its labels are shown, and nothing else. -/
structure Names (o : Output) (table : SymbolTable) : Prop where
  least : ∀ address name, table.lookup address = some name ↔
    ∃ place : Nat, (place : Int) = address ∧ (∃ l, o.Carries l place ∧ l.display = name) ∧
      ∀ l, o.Carries l place → name ≤ l.display
  found : ∀ l place, o.Carries l place → (table.lookup (place : Int)).isSome = true

theorem mem_symbols {name : String} {address : Nat} :
    (name, address) ∈ o.symbols ↔ ∃ l, o.Carries l address ∧ l.display = name := by
  unfold symbols Carries
  rw [List.mem_filterMap]
  constructor
  · rintro ⟨⟨l, id⟩, declared, listed⟩
    obtain ⟨there, found, same⟩ := Option.map_eq_some_iff.1 listed
    cases same
    exact ⟨l, ⟨id, declared, found⟩, rfl⟩
  · rintro ⟨l, ⟨id, declared, found⟩, rfl⟩
    exact ⟨(l, id), declared, by rw [found]; rfl⟩

theorem mem_sortedSymbols {entry : String × Nat} :
    entry ∈ o.sortedSymbols ↔ entry ∈ o.symbols := List.mem_mergeSort

theorem pairwise_sortedSymbols (o : Output) :
    o.sortedSymbols.Pairwise fun x y => x.1 ≤ y.1 := by
  refine (List.pairwise_mergeSort ?_ ?_ o.symbols).imp of_decide_eq_true
  · intro x y z first second
    exact decide_eq_true (String.le_trans (of_decide_eq_true first) (of_decide_eq_true second))
  · intro x y
    rw [Bool.or_eq_true, decide_eq_true_iff, decide_eq_true_iff]
    exact String.le_total _ _

/-- The symbols of an image come back from its symbol file, if every label has a name. -/
theorem read_symbolFile_names (named : ∀ entry ∈ o.program.labels, IsName entry.1.name) :
    ∃ table, SymbolFile.read o.symbolFile = .ok table ∧ o.Names table := by
  have fields (entry : String × Nat) (member : entry ∈ o.sortedSymbols) : IsField entry.1 := by
    obtain ⟨l, ⟨id, declared, -⟩, same⟩ := mem_symbols.1 (mem_sortedSymbols.1 member)
    exact same ▸ isField_display (named _ declared)
  -- The file keeps the order by name, so that the reader's first name of an address is the least.
  have sorted : (o.sortedSymbols.map fun entry => ((entry.2 : Int), entry.1)).Pairwise
      fun x y => x.2 ≤ y.2 := List.pairwise_map.2 (pairwise_sortedSymbols o)
  have listed (address : Int) (name : String) :
      (address, name) ∈ o.sortedSymbols.map (fun entry => ((entry.2 : Int), entry.1)) ↔
        ∃ place : Nat, (place : Int) = address ∧ ∃ l, o.Carries l place ∧ l.display = name := by
    rw [List.mem_map]
    constructor
    · rintro ⟨entry, member, same⟩
      cases same
      exact ⟨entry.2, rfl, mem_symbols.1 (mem_sortedSymbols.1 member)⟩
    · rintro ⟨place, rfl, carried⟩
      exact ⟨(name, place), mem_sortedSymbols.2 (mem_symbols.2 carried), rfl⟩
  have least (address : Int) (name : String) := @lookup_eq_some_iff_least _ sorted address name
  refine ⟨_, SymbolFile.read_write fields, ⟨?_, ?_⟩⟩
  · intro address name
    rw [least, listed]
    constructor
    · rintro ⟨⟨place, rfl, carried⟩, least⟩
      refine ⟨place, rfl, carried, fun l there => ?_⟩
      exact least _ ((listed _ _).2 ⟨place, rfl, l, there, rfl⟩)
    · rintro ⟨place, rfl, carried, least⟩
      refine ⟨⟨place, rfl, carried⟩, fun other member => ?_⟩
      obtain ⟨same, equal, l, there, rfl⟩ := (listed _ _).1 member
      rw [Int.ofNat_inj.1 equal] at there
      exact least l there
  · intro l place there
    exact List.lookup_isSome_iff.2
      ⟨_, (listed _ _).2 ⟨place, rfl, l, there, rfl⟩, beq_self_eq_true _⟩

end Output

/-- The symbols of a source text's image come back from the file they are written to: it is read,
    and as a table of the least name of each address that carries a label. -/
theorem Assembly.read_symbolFile {config : Config} {source : Source} {o : Output}
    (finished : (Assembly.ofSource config source).output = some o) :
    ∃ table, SymbolFile.read o.symbolFile = .ok table ∧ o.Names table := by
  apply Output.read_symbolFile_names
  rw [(Assembly.output_eq_some_iff.1 finished).2.program]
  exact isName_of_parsed (named_expanded source)

/-- A label of an inner block, and two labels of one address, the second with a letter beyond
    ASCII. -/
theorem Assembly.read_symbolFile_shared : ∃ o,
    (Assembly.ofSource .standard ⟨"shared",
      "a = :zoo b = :été #push here: !done #pop zoo: [] été: [5]"⟩).output = some o ∧
      o.symbols = [("0.1!here", 4), ("zoo", 5), ("été", 5)] ∧
      ∃ table, SymbolFile.read o.symbolFile = .ok table ∧ o.Names table := by
  have symbols : (Assembly.ofSource .standard ⟨"shared",
      "a = :zoo b = :été #push here: !done #pop zoo: [] été: [5]"⟩).output.map Output.symbols =
        some [("0.1!here", 4), ("zoo", 5), ("été", 5)] := by
    decide +kernel
  obtain ⟨o, output, same⟩ := Option.map_eq_some_iff.1 symbols
  exact ⟨o, output, same, Assembly.read_symbolFile output⟩

end Asm

end NineBit

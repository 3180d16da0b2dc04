import NineBit.Proofs.Disassembly.Recovery

/-!
# Cutting an image into lines

A disassembly cuts the words of an image into lines (`Cuts`): each line takes the first of the words
that are left, at least one of them (`lineOf_takes`), and what is left behind it is cut in the same
way. So the lines follow one another, their words are those of the image, and a disassembly that
starts where a line ends goes on with the same lines (`lines_partition`). Symbols have no say in
where a line ends (`bare_lineOf`).
-/

namespace NineBit.Disassembly

/-- A line stands at an address and is made of the first words there, of one at least. -/
structure Line.Takes (line : Line) (address : Int) (words : List Int) : Prop where
  place : line.address = address
  pos : 0 < line.size
  front : line.words = words.take line.size

theorem Line.Takes.le {line : Line} {address : Int} {words : List Int}
    (takes : line.Takes address words) : line.size ≤ words.length := by
  have length := congrArg List.length takes.front
  rw [List.length_take] at length
  exact Nat.le_trans (Nat.le_of_eq length) (Nat.min_le_right _ _)

/-- A line without its comment. -/
def Line.bare (line : Line) : Line := { line with comment := "" }

/-! ## One line -/

section
variable {symbols : SymbolTable} {address word : Int} {rest : List Int}

/-- Data takes one word, an instruction those of its operands as well, and an instruction that is
    cut short all that is left. -/
theorem lineOf_takes (symbols : SymbolTable) (address word : Int) (rest : List Int) :
    (lineOf symbols address word rest).Takes address (word :: rest) := by
  cases read : instruction? word with
  | none =>
    obtain ⟨comment, line⟩ : ∃ comment, lineOf symbols address word rest = _ := lineOf_data read
    rw [line]
    exact ⟨rfl, Nat.one_pos, rfl⟩
  | some opcode =>
    by_cases enough : Isa.operandCount (Isa.low word) ≤ rest.length
    · obtain ⟨comment, line⟩ : ∃ comment, lineOf symbols address word rest = _ :=
        lineOf_instruction read enough
      rw [line]
      refine ⟨rfl, Nat.succ_pos _, ?_⟩
      unfold Line.size
      dsimp only
      rw [List.length_cons, List.take_succ_cons, List.length_take_of_le enough]
    · obtain ⟨source, destination, line⟩ : ∃ source destination,
          lineOf symbols address word rest = _ := lineOf_cut read (Nat.lt_of_not_le enough)
      rw [line]
      exact ⟨rfl, Nat.succ_pos _, List.take_length.symm⟩

theorem bare_instructionLine (symbols : SymbolTable) (address : Int) (words : List Int)
    (text comment : String) :
    (instructionLine symbols address words text comment).bare = ⟨address, words, text, ""⟩ := rfl

/-- Symbols make no difference but in comments. -/
theorem bare_lineOf (symbols other : SymbolTable) (address word : Int) (rest : List Int) :
    (lineOf other address word rest).bare = (lineOf symbols address word rest).bare := by
  unfold lineOf
  dsimp only
  split
  · split
    · rfl
    · split
      · rfl
      · unfold movementLine
        simp only [bare_instructionLine]
  · unfold singleLine
    dsimp only
    split
    · split
      · rfl
      · simp only [bare_instructionLine]
    · split
      · simp only [bare_instructionLine]
      · rfl
    · rfl

theorem size_lineOf (symbols other : SymbolTable) (address word : Int) (rest : List Int) :
    (lineOf other address word rest).size = (lineOf symbols address word rest).size := by
  show (lineOf other address word rest).bare.size = (lineOf symbols address word rest).bare.size
  rw [bare_lineOf symbols other]

theorem linesOf_nil (symbols : SymbolTable) (address : Int) (count : Option Nat) :
    linesOf symbols address count [] = [] := by
  rw [linesOf]

theorem linesOf_zero (symbols : SymbolTable) (address : Int) (words : List Int) :
    linesOf symbols address (some 0) words = [] := by
  cases words with
  | nil => exact linesOf_nil ..
  | cons word rest => rw [linesOf, if_pos rfl]

/-- The first line, and those of the words behind it. -/
theorem linesOf_cons {count : Option Nat} (more : count ≠ some 0) :
    linesOf symbols address count (word :: rest) =
      lineOf symbols address word rest ::
        linesOf symbols (address + (lineOf symbols address word rest).size) (count.map (· - 1))
          ((word :: rest).drop (lineOf symbols address word rest).size) := by
  obtain ⟨size, same⟩ := Nat.exists_eq_succ_of_ne_zero
    (Nat.pos_iff_ne_zero.1 (lineOf_takes symbols address word rest).pos)
  rw [linesOf, if_neg more]
  dsimp only
  rw [same, Nat.succ_sub_one, List.drop_succ_cons]

end

/-! ## All lines -/

/-- The words from an address on, cut into lines. -/
inductive Cuts (symbols : SymbolTable) : Int → List Int → List Line → Prop where
  | nil (address : Int) : Cuts symbols address [] []
  | cons {address word : Int} {rest : List Int} {later : List Line}
      (cuts : Cuts symbols (address + (lineOf symbols address word rest).size)
        ((word :: rest).drop (lineOf symbols address word rest).size) later) :
      Cuts symbols address (word :: rest) (lineOf symbols address word rest :: later)

/-- A disassembly cuts the words. The induction is on how many words are left, which are fewer
    behind each line. -/
theorem cuts_linesOf (symbols : SymbolTable) (address : Int) (words : List Int) :
    Cuts symbols address words (linesOf symbols address none words) := by
  induction size : words.length using Nat.strongRecOn generalizing address words with
  | ind size ih =>
    cases words with
    | nil =>
      rw [linesOf_nil]
      exact .nil address
    | cons word rest =>
      have pos := (lineOf_takes symbols address word rest).pos
      rw [linesOf_cons (by simp)]
      refine .cons (ih _ ?_ _ _ rfl)
      rw [← size, List.length_drop, List.length_cons]
      omega

namespace Cuts

variable {symbols : SymbolTable} {address : Int} {words : List Int} {shown : List Line}

/-- There is one way to cut words into lines. -/
theorem linesOf_eq (cuts : Cuts symbols address words shown) :
    linesOf symbols address none words = shown := by
  induction cuts with
  | nil address => exact linesOf_nil ..
  | cons cuts ih =>
    rw [linesOf_cons (by simp)]
    exact congrArg (_ :: ·) ih

/-- Of the lines, as many as are asked for. -/
theorem linesOf_count (cuts : Cuts symbols address words shown) :
    ∀ count : Nat, linesOf symbols address (some count) words = shown.take count := by
  induction cuts with
  | nil address =>
    intro count
    rw [linesOf_nil, List.take_nil]
  | cons cuts ih =>
    intro count
    cases count with
    | zero => exact linesOf_zero ..
    | succ count =>
      rw [linesOf_cons (by simp), List.take_succ_cons]
      exact congrArg (_ :: ·) (ih count)

theorem pos (cuts : Cuts symbols address words shown) : ∀ line ∈ shown, 0 < line.size := by
  induction cuts with
  | nil address => exact fun _ member => absurd member List.not_mem_nil
  | cons cuts ih => exact List.forall_mem_cons.2 ⟨(lineOf_takes ..).pos, ih⟩

/-- No word is lost, and none is shown twice. -/
theorem flatMap_words (cuts : Cuts symbols address words shown) :
    shown.flatMap Line.words = words := by
  induction cuts with
  | nil address => rfl
  | cons cuts ih => rw [List.flatMap_cons, ih, (lineOf_takes ..).front, List.take_append_drop]

/-- The lines follow one another up to the end of the words. -/
theorem tiled (cuts : Cuts symbols address words shown) :
    Tiled address shown (address + words.length) := by
  induction cuts with
  | nil address =>
    rw [List.length_nil]
    exact (Int.add_zero address).symm
  | @cons address word rest later cuts ih =>
    have le := (lineOf_takes symbols address word rest).le
    refine ⟨(lineOf_takes ..).place, ?_⟩
    rw [List.length_drop, Int.ofNat_sub le] at ih
    have stop : address + (lineOf symbols address word rest).size +
        (((word :: rest).length : Int) - (lineOf symbols address word rest).size) =
          address + (word :: rest).length := by omega
    rwa [stop] at ih

/-- Behind some of the lines, the words that are left are cut into the others. -/
theorem suffix {before after : List Line} : ∀ {address : Int} {words : List Int},
    Cuts symbols address words (before ++ after) →
      Cuts symbols (address + (before.flatMap Line.words).length)
        (words.drop (before.flatMap Line.words).length) after := by
  induction before with
  | nil =>
    intro address words cuts
    rw [List.flatMap_nil, List.length_nil, Int.natCast_zero, Int.add_zero]
    exact cuts
  | cons line before ih =>
    intro address words cuts
    cases cuts with
    | cons later =>
      have next := ih later
      rw [List.drop_drop, Int.add_assoc, ← Int.natCast_add] at next
      rw [List.flatMap_cons, List.length_append]
      exact next

/-- With other symbols the words are cut into the same lines, but for their comments. -/
theorem map_bare (cuts : Cuts symbols address words shown) (other : SymbolTable) :
    (linesOf other address none words).map Line.bare = shown.map Line.bare := by
  induction cuts with
  | nil address => rw [linesOf_nil]
  | @cons address word rest later cuts ih =>
    rw [linesOf_cons (by simp), List.map_cons, List.map_cons, bare_lineOf symbols other,
      size_lineOf symbols other]
    exact congrArg (_ :: ·) ih

end Cuts

/-! ## A disassembly from a start -/

/-- What the lines of an image from a start on are. -/
structure Partitions (symbols : SymbolTable) (words : List Int) (start : Int)
    (shown : List Line) : Prop where
  /-- Every line has words. -/
  pos : ∀ line ∈ shown, 0 < line.size
  /-- The first line stands at the start, each other one where the line before it ends, and the
      last one ends with the image. -/
  tiled : Tiled start shown words.length
  /-- The words of the lines are those of the image. -/
  whole : shown.flatMap Line.words = words.drop start.toNat
  /-- A disassembly from where a line ends gives the lines behind it. -/
  resumed : ∀ before after, shown = before ++ after →
    lines symbols words (start + (before.flatMap Line.words).length) none = .ok after
  /-- A disassembly of some lines gives the first ones. -/
  counted : ∀ count : Nat, lines symbols words start (some count) = .ok (shown.take count)
  /-- Other symbols change comments only. -/
  annotated : ∀ other : SymbolTable, ∃ others, lines other words start none = .ok others ∧
    others.map Line.bare = shown.map Line.bare

theorem lines_natCast (symbols : SymbolTable) (words : List Int) (start : Nat)
    (count : Option Int) : lines symbols words start count =
      .ok (linesOf symbols start (count.map Int.toNat) (words.drop start)) := by
  unfold lines linesAt
  rw [dif_neg (Int.not_lt.2 (Int.natCast_nonneg start)), Int.toNat_natCast]

/-- Disassembling an image from any place in it gives lines that follow one another and have just
    the words from there on; from where one of them ends, the lines behind it; and of lines that are
    counted, the first ones. Symbols change nothing but comments. -/
theorem lines_partition {words : List Int} {start : Int} (nonneg : 0 ≤ start)
    (inside : start ≤ words.length) (symbols : SymbolTable) :
    ∃ shown, lines symbols words start none = .ok shown ∧
      Partitions symbols words start shown := by
  obtain ⟨first, rfl⟩ := Int.eq_ofNat_of_zero_le nonneg
  have cuts := cuts_linesOf symbols first (words.drop first)
  refine ⟨_, lines_natCast symbols words first none, cuts.pos, ?_, ?_, ?_, ?_, ?_⟩
  · have tiled := cuts.tiled
    rw [List.length_drop, Int.ofNat_sub (Int.ofNat_le.1 inside)] at tiled
    have stop : (first : Int) + ((words.length : Int) - first) = words.length := by omega
    rwa [stop] at tiled
  · rw [Int.toNat_natCast]
    exact cuts.flatMap_words
  · intro before after split
    have later := Cuts.suffix (split ▸ cuts)
    rw [List.drop_drop] at later
    rw [← Int.natCast_add, lines_natCast]
    exact congrArg Except.ok later.linesOf_eq
  · intro count
    rw [lines_natCast]
    exact congrArg Except.ok (cuts.linesOf_count count)
  · exact fun other => ⟨_, lines_natCast other words first none, cuts.map_bare other⟩

/-- A movement with two operands, one without a destination, a stop and a movement that is cut
    short, behind a word that is left out. -/
theorem lines_partition_cut : ∃ shown,
    lines [] [7, 497, 8, 9, 510, 66, 502] 1 none = .ok shown ∧
      shown.map Line.size = [3, 1, 1, 1] ∧
      Partitions [] [7, 497, 8, 9, 510, 66, 502] 1 shown := by
  have sizes : (lines [] [7, 497, 8, 9, 510, 66, 502] 1 none).map (List.map Line.size) =
      .ok [3, 1, 1, 1] := by
    decide +kernel
  obtain ⟨shown, same, partitions⟩ :
      ∃ shown, lines [] [7, 497, 8, 9, 510, 66, 502] 1 none = .ok shown ∧
        Partitions [] [7, 497, 8, 9, 510, 66, 502] 1 shown :=
    lines_partition (by decide) (by decide) []
  rw [same] at sizes
  exact ⟨shown, same, Except.ok.inj sizes, partitions⟩

end NineBit.Disassembly

import Mathlib.Data.List.Nodup
import NineBit.Proofs.Asm.Linked

/-!
# Widths of image words

The linker writes addresses as they are, without reducing them to a word. An address is at most the
size of the image, which the memory holds, so that it is a word but in one case: the image fills the
whole address space, and the data put down last has no words, which makes it stand behind the last
word (`Linked.fits_iff`). The address written for it is then the number of words, one too large.
-/

namespace NineBit.Asm

/-! ## Known words -/

section
variable {bits value : Nat}

theorem wrapped_lt (bits value : Nat) : value % wordCount bits < wordCount bits :=
  Nat.mod_lt _ (wordCount_pos bits)

mutual

theorem Literal.word_mem_slots : ∀ literal : Literal, Slot.word value ∈ literal.slots bits →
    value < wordCount bits
  | .number _ _, member => by
    cases List.mem_singleton.1 member
    exact wrapped_lt _ _
  | .text _ _, member => by
    obtain ⟨c, -, same⟩ := List.mem_map.1 member
    cases same
    exact wrapped_lt _ _
  | .array elements _, member => Literal.word_mem_slotsOf elements member
  | .reference _, member => nomatch List.mem_singleton.1 member

theorem Literal.word_mem_slotsOf : ∀ literals : List Literal,
    Slot.word value ∈ Literal.slotsOf bits literals → value < wordCount bits
  | [], member => absurd member List.not_mem_nil
  | literal :: rest, member => by
    rcases List.mem_append.1 member with first | later
    · exact literal.word_mem_slots first
    · exact Literal.word_mem_slotsOf rest later

end

/-- Every known word of an image is reduced to the width of words. -/
theorem Program.word_mem_image (wide : 9 ≤ bits) {p : Program} {pieces : List Piece}
    (member : Slot.word value ∈ p.image bits pieces) : value < wordCount bits := by
  rcases List.mem_append.1 member with code | data
  · obtain ⟨s, -, inside⟩ := List.mem_flatMap.1 code
    unfold Statement.slots at inside
    split at inside
    · rename_i opcode found
      rcases List.mem_cons.1 inside with first | later
      · cases first
        exact opcode.word_lt_wordCount wide
      · obtain ⟨operand, -, same⟩ := List.mem_map.1 later
        cases operand with
        | number value span =>
          cases same
          exact wrapped_lt _ _
        | _ => cases same
    · exact absurd inside List.not_mem_nil
  · obtain ⟨piece, -, inside⟩ := List.mem_flatMap.1 data
    exact piece.literal.word_mem_slots inside

end

/-! ## Addresses -/

namespace Linked

variable {bits : Nat} {o : Output} {pieces : List Piece}

/-- A statement that is code stands inside the image. -/
theorem code_lt (linked : Linked bits o pieces) {s : Statement}
    (member : s ∈ o.program.executable) {address : Nat}
    (found : o.addressOfId? s.id = some address) : address < o.words.size := by
  obtain ⟨before, after, same⟩ := List.append_of_mem member
  have recorded := linked.code before s after same
  rw [found] at recorded
  cases recorded
  have some : 0 < (s.slots bits).length := by
    obtain ⟨-, code⟩ := List.mem_filter.1 member
    obtain ⟨id, span, label, body⟩ := s
    cases body with
    | constant literal => cases code
    | _ => exact Nat.succ_pos _
  rw [linked.size]
  unfold Program.image Program.code
  rw [same, List.flatMap_append, List.flatMap_cons]
  simp only [List.length_append]
  omega

/-- A piece of data stands inside the image or right behind it. -/
theorem piece_le (linked : Linked bits o pieces) {before after : List Piece} {piece : Piece}
    (same : pieces = before ++ piece :: after) :
    piece.address + (dataSlots bits (piece :: after)).length = o.words.size := by
  rw [linked.piece before piece after same, linked.size, same, Layout.image_append,
    List.length_append]

/-- The last piece of data has no words just when a piece stands behind the image. -/
theorem last_empty (linked : Linked bits o pieces) {piece : Piece} (member : piece ∈ pieces)
    (behind : piece.address = o.words.size) :
    ∃ before last, pieces = before ++ [last] ∧ last.literal.slots bits = [] := by
  obtain ⟨before, after, same⟩ := List.append_of_mem member
  have whole := linked.piece_le same
  have empty : dataSlots bits (piece :: after) = [] := List.eq_nil_of_length_eq_zero (by omega)
  have split := List.dropLast_concat_getLast (List.cons_ne_nil piece after)
  refine ⟨before ++ (piece :: after).dropLast, (piece :: after).getLast (List.cons_ne_nil _ _),
    ?_, ?_⟩
  · rw [List.append_assoc, split, same]
  · exact List.flatMap_eq_nil_iff.1 empty _ (List.getLast_mem _)

/-- A word that the linker has written is the address of a statement that is code or of a piece of
    data. -/
theorem link_le (linked : Linked bits o pieces) {address word : Nat} {literal : Literal}
    (links : LinksTo o.program o.addressOfId? pieces address literal word) :
    word < o.words.size ∨ ∃ piece ∈ pieces, piece.address = word := by
  have owned (owner : Owner) (member : ⟨owner, word, literal⟩ ∈ pieces) :
      word < o.words.size ∨ ∃ piece ∈ pieces, piece.address = word := .inr ⟨_, member, rfl⟩
  cases literal with
  | reference r =>
    obtain ⟨id, -, recorded⟩ := links
    rcases linked.placed id word recorded with ⟨s, executable, rfl⟩ | ⟨data, constant⟩
    · exact .inl (linked.code_lt executable recorded)
    · exact .inr ⟨_, (linked.constant id word data).2 ⟨constant, recorded⟩, rfl⟩
  | _ => exact owned _ links

/-- A reached constant is mentioned in the image. -/
theorem mentioned (linked : Linked bits o pieces) {id : Nat} (reached : o.program.Reached id) :
    ∃ r, Slot.linked (.reference r) ∈ o.program.image bits pieces ∧
      r.target? o.program.labels = some id := by
  cases reached with
  | @code s literal data r _ executable operand mentioned target constant =>
    refine ⟨r, ?_, target⟩
    cases literal with
    | number value span => exact absurd mentioned List.not_mem_nil
    | text value span => exact absurd mentioned List.not_mem_nil
    | reference other =>
      cases List.mem_singleton.1 mentioned
      exact List.mem_append_left _ (Layout.linked_mem_code executable operand rfl)
    | array elements span =>
      obtain ⟨i, found⟩ := List.mem_iff_getElem?.1 (List.mem_append_left
        (dataSlots bits pieces) (Layout.linked_mem_code executable operand rfl))
      obtain ⟨word, -, owned⟩ := linked.word i _ found
      exact Layout.Laid.mention_mem owned rfl mentioned
  | @data source _ literal data r reached constant mentioned target other =>
    obtain ⟨address, recorded⟩ :=
      Option.isSome_iff_exists.1 ((linked.reached source literal constant).2 reached)
    have member := (linked.constant source address literal).2 ⟨constant, recorded⟩
    exact ⟨r, Layout.Laid.mention_mem member rfl mentioned, target⟩

/-- Some word of the image is the address of a piece of data. -/
theorem address_mem (linked : Linked bits o pieces) {piece : Piece} (member : piece ∈ pieces) :
    piece.address ∈ o.words := by
  obtain ⟨owner, address, literal⟩ := piece
  cases owner with
  | operand slot =>
    obtain ⟨found, inline⟩ := linked.operand slot address literal member
    have inside := (List.getElem?_eq_some_iff.1 found).1
    have image : (o.program.image bits pieces)[slot]? = some (.linked literal) := by
      unfold Program.image
      rw [List.getElem?_append_left inside]
      exact found
    obtain ⟨word, written, links⟩ := linked.word slot _ image
    have owned : ⟨.operand slot, word, literal⟩ ∈ pieces := by
      cases literal with
      | reference r => cases inline
      | number value span => cases inline
      | _ => exact links
    have same := List.inj_on_of_nodup_map linked.owner member owned rfl
    cases same
    exact Array.mem_of_getElem? written
  | constant id =>
    obtain ⟨data, recorded⟩ := (linked.constant id address literal).1 member
    obtain ⟨r, slot, target⟩ := linked.mentioned
      ((linked.reached id literal data).1 (Option.isSome_of_eq_some recorded))
    obtain ⟨i, found⟩ := List.mem_iff_getElem?.1 slot
    obtain ⟨word, written, other, same, address⟩ := linked.word i _ found
    rw [target] at same
    cases same
    rw [recorded] at address
    cases address
    exact Array.mem_of_getElem? written

/-- Every word of an image in a memory is a word of the machine, unless the image fills the whole
    address space and the data put down last has no words. -/
theorem fits_iff {config : Config} (linked : Linked config.wordBits o pieces)
    (holds : o.words.size ≤ config.memorySize) :
    (∀ word ∈ o.words, word < wordCount config.wordBits) ↔
      ¬(o.words.size = wordCount config.wordBits ∧
        ∃ before last, pieces = before ++ [last] ∧
          last.literal.slots config.wordBits = []) := by
  have space := config.memorySize_le
  constructor
  · rintro fits ⟨full, before, last, same, empty⟩
    have member : last ∈ pieces := by
      rw [same]
      exact List.mem_append_right _ (List.mem_singleton.2 rfl)
    have behind := linked.piece_le same
    rw [Layout.dataSlots_singleton, empty, List.length_nil] at behind
    have word := fits _ (linked.address_mem member)
    omega
  · intro free word member
    obtain ⟨i, lt, same⟩ := Array.getElem_of_mem member
    have inside : i < (o.program.image config.wordBits pieces).length := by
      rw [← linked.size]
      exact lt
    obtain ⟨written, found, settles⟩ := linked.word i _ (List.getElem?_eq_getElem inside)
    rw [Array.getElem?_eq_getElem lt, same] at found
    cases found
    cases slot : (o.program.image config.wordBits pieces)[i] with
    | word value =>
      rw [slot] at settles
      rw [settles]
      have image : Slot.word value ∈ o.program.image config.wordBits pieces := by
        rw [← slot]
        exact List.getElem_mem inside
      exact Program.word_mem_image config.nine_le_wordBits image
    | linked literal =>
      rw [slot] at settles
      rcases linked.link_le settles with small | ⟨piece, data, address⟩
      · omega
      · obtain ⟨before, after, split⟩ := List.append_of_mem data
        -- No address is above the space, and the one just above it is left to the last piece.
        have whole := linked.piece_le split
        refine Nat.lt_of_le_of_ne (by omega) fun large => free ⟨by omega, ?_⟩
        exact linked.last_empty data (by omega)

end Linked

/-- Every word of an assembled image is a word of the machine, unless the image fills the whole
    address space and the data put down last has no words. -/
theorem Assembly.output_fits_iff {config : Config} {source : Source} {o : Output}
    (h : (Assembly.ofSource config source).output = some o) :
    ∃ pieces, Linked config.wordBits o pieces ∧
      ((∀ word ∈ o.words, word < wordCount config.wordBits) ↔
        ¬(o.words.size = wordCount config.wordBits ∧
          ∃ before last, pieces = before ++ [last] ∧
            last.literal.slots config.wordBits = [])) := by
  have assembled := assembled_of_output h
  obtain ⟨pieces, linked⟩ := assembled.linked
  exact ⟨pieces, linked, linked.fits_iff assembled.holds⟩

/-- The machine with nine-bit words and as many of them as there are addresses. -/
def wholeMemory : Config :=
  { Config.standard with
    memorySize := 512
    memorySize_pos := by decide
    memorySize_le := by decide }

/-- An image that fills the address space, with an empty array put down last: its address is the
    number of words. -/
theorem Assembly.output_fits_iff_whole : ∃ o,
    (Assembly.ofSource wholeMemory ⟨"full", "b = [] ~508 a = []"⟩).output = some o ∧
      o.words[3]? = some 512 ∧
      ∃ pieces, Linked 9 o pieces ∧
        ((∀ word ∈ o.words, word < 512) ↔
          ¬(o.words.size = 512 ∧
            ∃ before last, pieces = before ++ [last] ∧ last.literal.slots 9 = [])) := by
  have words : ((Assembly.ofSource wholeMemory ⟨"full", "b = [] ~508 a = []"⟩).output.map
      (·.words[3]?)) = some (some 512) := by
    decide +kernel
  obtain ⟨o, output, large⟩ := Option.map_eq_some_iff.1 words
  exact ⟨o, output, large, Assembly.output_fits_iff output⟩

end NineBit.Asm

import Mathlib.Algebra.GroupWithZero.Nat
import NineBit.Proofs.Asm.Image

/-!
# Linking

The linker fills the gaps of the image in the order of their addresses. Between two of them the
image stands, and the gaps before some address are filled (`Layout.Laid`). Filling the next one
keeps this: a reference to what has an address fills its gap with that, and an operand with data or
the first reference to a constant puts one more piece of data behind the image
(`Layout.Laid.fill_reference`, `fill_inline`, `fill_constant`). Each time less work is left
(`Layout.resolve_step`), so that the bound on the work lets every gap be filled
(`Layout.fillGaps_laid`).
-/

namespace NineBit.Asm

namespace Layout

/-! ## What holds between two gaps -/

/-- Where a piece of data makes a statement stand. -/
def placement? (piece : Piece) : Option Placement :=
  match piece.owner with
  | .constant id => some ⟨id, piece.address⟩
  | .operand _ => none

/-- Pieces of data stand one after the other from an address on. -/
def Row (bits address : Nat) : List Piece → Prop
  | [] => True
  | piece :: rest =>
    piece.address = address ∧ Row bits (address + (piece.literal.slots bits).length) rest

/-- The draft is an image in which some gaps are filled and the others, of higher addresses, are
    queued. -/
structure Laid (bits : Nat) (p : Program) (d : Draft) (pieces : List Piece)
    (filled queue : List Gap) : Prop where
  size : d.words.size = (p.image bits pieces).length
  word : ∀ (i value : Nat), (p.image bits pieces)[i]? = some (.word value) →
    d.words[i]? = some value
  gaps : gapsFrom 0 (p.image bits pieces) = filled ++ queue
  links : ∀ gap ∈ filled, ∃ word, d.words[gap.address]? = some word ∧
    LinksTo p d.addressOf? pieces gap.address gap.literal word
  placements : d.placements.toList =
    placesFrom bits 0 p.executable ++ pieces.filterMap placement?
  row : Row bits (p.code bits).length pieces
  owner : (pieces.map Piece.owner).Nodup
  operand : ∀ (address word : Nat) (literal : Literal),
    ⟨.operand address, word, literal⟩ ∈ pieces →
      ⟨address, literal⟩ ∈ filled ∧ literal.isInline = true
  constant : ∀ (id address : Nat) (literal : Literal),
    ⟨.constant id, address, literal⟩ ∈ pieces → p.data? id = some literal ∧ p.Reached id
  /-- Every constant that a gap mentions is one that the code reaches. -/
  live : ∀ gap ∈ filled ++ queue, ∀ r ∈ gap.literal.mentions, ∀ (id : Nat) (data : Literal),
    r.target? p.labels = some id → p.data? id = some data → p.Reached id

section
variable {bits : Nat} {p : Program} {d next : Draft} {pieces more : List Piece}
  {filled queue : List Gap} {gap : Gap} {word : Nat}

theorem dataSlots_append (pieces more : List Piece) :
    dataSlots bits (pieces ++ more) = dataSlots bits pieces ++ dataSlots bits more :=
  List.flatMap_append

theorem image_append (pieces more : List Piece) :
    p.image bits (pieces ++ more) = p.image bits pieces ++ dataSlots bits more := by
  unfold Program.image
  rw [dataSlots_append, List.append_assoc]

theorem row_append : ∀ {pieces : List Piece} {address : Nat}, Row bits address (pieces ++ more) ↔
    Row bits address pieces ∧ Row bits (address + (dataSlots bits pieces).length) more := by
  intro pieces
  induction pieces with
  | nil => exact fun {_} => ⟨fun row => ⟨trivial, row⟩, fun row => row.2⟩
  | cons piece rest ih =>
    intro address
    have length : address + (dataSlots bits (piece :: rest)).length =
        address + (piece.literal.slots bits).length + (dataSlots bits rest).length := by
      show address + (piece.literal.slots bits ++ dataSlots bits rest).length = _
      rw [List.length_append, Nat.add_assoc]
    rw [length]
    show piece.address = address ∧ Row bits _ (rest ++ more) ↔
      (piece.address = address ∧ Row bits _ rest) ∧ _
    rw [ih, and_assoc]

/-- An address that is recorded stays. -/
theorem addressOf?_mono {placements : List Placement}
    (grown : next.placements.toList = d.placements.toList ++ placements) {id address : Nat}
    (found : d.addressOf? id = some address) : next.addressOf? id = some address := by
  unfold Draft.addressOf? at found ⊢
  rw [← Array.find?_toList] at found ⊢
  obtain ⟨placement, first, same⟩ := Option.map_eq_some_iff.1 found
  rw [grown, List.find?_append, first, Option.some_or, Option.map_some, same]

/-- A draft has grown by the slots of pieces and by their placements. -/
structure Draft.Grows (bits : Nat) (d : Draft) (more : List Piece) (next : Draft) : Prop where
  words : next.words.toList = d.words.toList ++ (dataSlots bits more).map Slot.blank
  placements : next.placements.toList = d.placements.toList ++ more.filterMap placement?

theorem Draft.Grows.size (grows : d.Grows bits more next) :
    next.words.size = d.words.size + (dataSlots bits more).length := by
  rw [← Array.length_toList, grows.words, List.length_append, List.length_map,
    Array.length_toList]

theorem Draft.Grows.old (grows : d.Grows bits more next) {i : Nat} (lt : i < d.words.size) :
    next.words[i]? = d.words[i]? := by
  rw [← Array.getElem?_toList, grows.words, List.getElem?_append_left (by simpa using lt),
    Array.getElem?_toList]

theorem Draft.Grows.new (grows : d.Grows bits more next) (i : Nat) :
    next.words[d.words.size + i]? = (dataSlots bits more)[i]?.map Slot.blank := by
  rw [← Array.getElem?_toList, grows.words,
    List.getElem?_append_right (by simp), List.getElem?_map, Array.length_toList,
    Nat.add_sub_cancel_left]

theorem Draft.fill_other {address i : Nat} (ne : i ≠ address) :
    (d.fill address word).words[i]? = d.words[i]? :=
  Array.getElem?_setIfInBounds_ne (Ne.symm ne)

namespace Laid

/-- What the draft remembers of gaps does not count. -/
theorem of_eq (laid : Laid bits p d pieces filled queue) (words : next.words = d.words)
    (placements : next.placements = d.placements) : Laid bits p next pieces filled queue := by
  have same : next.addressOf? = d.addressOf? := by
    unfold Draft.addressOf?
    rw [placements]
  refine ⟨?_, ?_, laid.gaps, ?_, ?_, laid.row, laid.owner, laid.operand, laid.constant, laid.live⟩
  · rw [words]
    exact laid.size
  · rw [words]
    exact laid.word
  · rw [words, same]
    exact laid.links
  · rw [placements]
    exact laid.placements

/-- A gap is inside the image, where a slot stands for its literal. -/
theorem gap_slot (laid : Laid bits p d pieces filled queue) (member : gap ∈ filled ++ queue) :
    (p.image bits pieces)[gap.address]? = some (.linked gap.literal) := by
  rw [← laid.gaps] at member
  obtain ⟨i, same, found⟩ := mem_gapsFrom.1 member
  rw [same, Nat.zero_add]
  exact found

theorem gap_lt (laid : Laid bits p d pieces filled queue) (member : gap ∈ filled ++ queue) :
    gap.address < d.words.size := by
  rw [laid.size]
  exact (List.getElem?_eq_some_iff.1 (laid.gap_slot member)).1

/-- The gaps that are filled stand before those that are queued. -/
theorem filled_lt (laid : Laid bits p d pieces filled (gap :: queue)) {other : Gap}
    (member : other ∈ filled) : other.address < gap.address := by
  have sorted := gapsFrom_sorted (p.image bits pieces) 0
  rw [laid.gaps] at sorted
  exact (List.pairwise_append.1 sorted).2.2 other member gap List.mem_cons_self

/-- A word that stands for itself is kept, and those that are put down are as their slots say. -/
theorem word_fill (laid : Laid bits p d pieces filled (gap :: queue))
    (grows : d.Grows bits more next) {i value : Nat}
    (found : (p.image bits (pieces ++ more))[i]? = some (.word value)) :
    (next.fill gap.address word).words[i]? = some value := by
  have here : gap ∈ filled ++ gap :: queue := List.mem_append_right _ List.mem_cons_self
  have inside := laid.gap_lt here
  rw [image_append] at found
  by_cases old : i < (p.image bits pieces).length
  · rw [List.getElem?_append_left old] at found
    -- The gap's own slot is no word, so that the write goes elsewhere.
    have ne : i ≠ gap.address := by
      rintro rfl
      rw [laid.gap_slot here] at found
      cases found
    rw [Draft.fill_other ne, grows.old (by rw [laid.size]; exact old)]
    exact laid.word i value found
  · rw [List.getElem?_append_right (by omega)] at found
    rw [← laid.size] at old found
    have place : d.words.size + (i - d.words.size) = i := by omega
    rw [Draft.fill_other (by omega), ← place, grows.new, found]
    rfl

/-- The gaps that were filled before stay filled, and the first queued one is filled too. -/
theorem links_fill (laid : Laid bits p d pieces filled (gap :: queue))
    (grows : d.Grows bits more next)
    (links : LinksTo p next.addressOf? (pieces ++ more) gap.address gap.literal word) {done : Gap}
    (member : done ∈ filled ++ [gap]) :
    ∃ written, (next.fill gap.address word).words[done.address]? = some written ∧
      LinksTo p next.addressOf? (pieces ++ more) done.address done.literal written := by
  have here : gap ∈ filled ++ gap :: queue := List.mem_append_right _ List.mem_cons_self
  have inside := laid.gap_lt here
  rcases List.mem_append.1 member with earlier | this
  · obtain ⟨old, found, linked⟩ := laid.links done earlier
    have before := laid.filled_lt earlier
    refine ⟨old, ?_, LinksTo.mono linked (fun _ _ => addressOf?_mono grows.placements)
      fun piece => List.mem_append_left _⟩
    rw [Draft.fill_other (by omega), grows.old (by omega)]
    exact found
  · rw [List.mem_singleton.1 this]
    refine ⟨word, ?_, links⟩
    exact Array.getElem?_setIfInBounds_self_of_lt (by rw [grows.size]; omega)

/-- Filling the first queued gap, behind which data may have been put down. -/
theorem fill (laid : Laid bits p d pieces filled (gap :: queue)) (grows : d.Grows bits more next)
    (row : Row bits d.words.size more) (owner : ((pieces ++ more).map Piece.owner).Nodup)
    (operand : ∀ (address word : Nat) (literal : Literal),
      ⟨.operand address, word, literal⟩ ∈ more →
        ⟨address, literal⟩ = gap ∧ literal.isInline = true)
    (constant : ∀ (id address : Nat) (literal : Literal),
      ⟨.constant id, address, literal⟩ ∈ more → p.data? id = some literal ∧ p.Reached id)
    (live : ∀ other ∈ gapsFrom d.words.size (dataSlots bits more), ∀ r ∈ other.literal.mentions,
      ∀ (id : Nat) (data : Literal), r.target? p.labels = some id → p.data? id = some data →
        p.Reached id)
    (links : LinksTo p next.addressOf? (pieces ++ more) gap.address gap.literal word) :
    Laid bits p (next.fill gap.address word) (pieces ++ more) (filled ++ [gap])
      (queue ++ gapsFrom d.words.size (dataSlots bits more)) where
  size := by
    show (next.words.setIfInBounds gap.address word).size = _
    rw [Array.size_setIfInBounds, grows.size, laid.size, image_append, List.length_append]
  word _ _ found := laid.word_fill grows found
  gaps := by
    rw [image_append, gapsFrom_append, laid.gaps, Nat.zero_add, ← laid.size, List.append_assoc,
      List.append_assoc]
    rfl
  links _ member := laid.links_fill grows links member
  placements := by
    show next.placements.toList = _
    rw [grows.placements, laid.placements, List.filterMap_append, List.append_assoc]
  row := by
    have size := laid.size
    unfold Program.image at size
    rw [List.length_append] at size
    refine row_append.2 ⟨laid.row, ?_⟩
    rw [← size]
    exact row
  owner := owner
  operand address word literal member := by
    rcases List.mem_append.1 member with old | new
    · obtain ⟨done, inline⟩ := laid.operand address word literal old
      exact ⟨List.mem_append_left _ done, inline⟩
    · obtain ⟨rfl, inline⟩ := operand address word literal new
      exact ⟨List.mem_append_right _ (List.mem_singleton.2 rfl), inline⟩
  constant id address literal member := by
    rcases List.mem_append.1 member with old | new
    · exact laid.constant id address literal old
    · exact constant id address literal new
  live left member := by
    rw [List.append_assoc, ← List.append_assoc [gap], ← List.append_assoc] at member
    rcases List.mem_append.1 member with old | new
    · exact laid.live left old
    · exact live left new

/-- One more piece, of an owner that has none. -/
theorem owner_append (laid : Laid bits p d pieces filled queue) {piece : Piece}
    (fresh : ∀ old ∈ pieces, old.owner ≠ piece.owner) :
    ((pieces ++ [piece]).map Piece.owner).Nodup := by
  rw [List.map_append, List.nodup_append]
  refine ⟨laid.owner, List.pairwise_singleton _ _, fun owner member other this same => ?_⟩
  obtain ⟨old, inside, rfl⟩ := List.mem_map.1 member
  rw [List.mem_singleton.1 this] at same
  exact fresh old inside same

end Laid

/-! ## The code -/

theorem operand_of_linked_mem {literal : Literal} (member : Slot.linked literal ∈ p.code bits) :
    ∃ s ∈ p.executable, literal ∈ s.operands := by
  obtain ⟨s, executable, inside⟩ := List.mem_flatMap.1 member
  refine ⟨s, executable, ?_⟩
  unfold Statement.slots at inside
  split at inside
  · rcases List.mem_cons.1 inside with first | later
    · cases first
    · obtain ⟨operand, given, same⟩ := List.mem_map.1 later
      cases operand with
      | number value span => cases same
      | _ =>
        cases same
        exact given
  · exact absurd inside List.not_mem_nil

/-- An operand that is no number is linked. -/
theorem linked_mem_code {s : Statement} {literal : Literal} (executable : s ∈ p.executable)
    (operand : literal ∈ s.operands) (linked : literal.operand bits = .linked literal) :
    Slot.linked literal ∈ p.code bits := by
  refine List.mem_flatMap.2 ⟨s, executable, ?_⟩
  have later := List.mem_map_of_mem (f := Literal.operand bits) operand
  rw [linked] at later
  obtain ⟨id, span, label, body⟩ := s
  cases body with
  | constant data => exact absurd operand List.not_mem_nil
  | _ => exact List.mem_cons_of_mem _ later

/-- Before any gap is filled the image is the code. -/
theorem laid_code (wide : 9 ≤ bits) {limit : Int} (parsed : p.Parsed limit) :
    Laid bits p (code bits p.executable) [] [] (code bits p.executable).gaps.reverse := by
  have codes := codes_code wide parsed
  have image : p.image bits [] = p.code bits := List.append_nil _
  have words : (code bits p.executable).words.toList = (p.code bits).map Slot.blank := codes.words
  have gaps : (code bits p.executable).gaps.reverse = gapsFrom 0 (p.code bits) := by
    rw [codes.gaps, List.append_nil, List.reverse_reverse]
    rfl
  refine ⟨?_, fun i value found => ?_, ?_, fun _ member => absurd member List.not_mem_nil, ?_,
    trivial, List.nodup_nil, fun _ _ _ member => absurd member List.not_mem_nil,
    fun _ _ _ member => absurd member List.not_mem_nil, fun gap member r mentioned id data => ?_⟩
  · rw [← Array.length_toList, words, List.length_map, image]
  · rw [image] at found
    rw [← Array.getElem?_toList, words, List.getElem?_map, found]
    rfl
  · rw [image, gaps]
    rfl
  · rw [codes.placements]
    exact (List.append_nil _).symm
  · intro target constant
    rw [List.nil_append, gaps] at member
    obtain ⟨i, -, found⟩ := mem_gapsFrom.1 member
    obtain ⟨s, executable, operand⟩ := operand_of_linked_mem (List.mem_of_getElem? found)
    exact .code executable operand mentioned target constant

/-! ## One gap -/

theorem dataSlots_singleton (piece : Piece) :
    dataSlots bits [piece] = piece.literal.slots bits := List.append_nil _

/-- A draft grows by the copy of an operand. -/
theorem Draft.grows_operand (d : Draft) (address : Nat) (literal : Literal) :
    d.Grows bits [⟨.operand address, d.words.size, literal⟩] (d.data bits literal) := by
  have lays : d.Lays (literal.slots bits) (d.data bits literal) := .data literal d
  refine ⟨?_, ?_⟩
  · rw [dataSlots_singleton, lays.words]
  · rw [lays.placements]
    exact (List.append_nil _).symm

/-- A draft grows by the data of a constant. -/
theorem Draft.grows_constant (bits : Nat) (d : Draft) (id : Nat) (data : Literal) :
    d.Grows bits [⟨.constant id, d.words.size, data⟩] ((d.place id).data bits data) := by
  have lays : (d.place id).Lays (data.slots bits) ((d.place id).data bits data) :=
    .data data (d.place id)
  refine ⟨?_, ?_⟩
  · rw [dataSlots_singleton, lays.words]
    rfl
  · rw [lays.placements]
    exact Array.toList_push

/-- The gaps in data are references of its literal. -/
theorem mention_of_mem_gapsFrom {literal : Literal} {address : Nat} {r : Reference}
    (member : gap ∈ gapsFrom address (literal.slots bits)) (mentioned : r ∈ gap.literal.mentions) :
    r ∈ literal.mentions := by
  obtain ⟨i, -, found⟩ := mem_gapsFrom.1 member
  obtain ⟨other, inside, same⟩ := Literal.linked_mem_slots.1 (List.mem_of_getElem? found)
  rw [same] at mentioned
  rw [List.mem_singleton.1 mentioned]
  exact inside

theorem addressOf?_eq_none {id : Nat} (none : d.addressOf? id = none) {placement : Placement}
    (member : placement ∈ d.placements.toList) : placement.id ≠ id := by
  unfold Draft.addressOf? at none
  rw [Option.map_eq_none_iff, ← Array.find?_toList, List.find?_eq_none] at none
  intro same
  exact none placement member (beq_iff_eq.2 same)

namespace Laid

/-- A reference to what has an address. -/
theorem fill_reference (laid : Laid bits p d pieces filled (gap :: queue)) {r : Reference}
    {id : Nat} (literal : gap.literal = .reference r) (target : r.target? p.labels = some id)
    (found : d.addressOf? id = some word) :
    Laid bits p (d.fill gap.address word) pieces (filled ++ [gap]) queue := by
  have grows : d.Grows bits [] d := ⟨(List.append_nil _).symm, (List.append_nil _).symm⟩
  have filled := laid.fill grows trivial
    (by rw [List.append_nil]; exact laid.owner) (fun _ _ _ member => absurd member List.not_mem_nil)
    (fun _ _ _ member => absurd member List.not_mem_nil)
    (fun _ member => absurd member List.not_mem_nil)
    (by rw [literal]; exact ⟨id, target, found⟩)
  rw [List.append_nil] at filled
  have none : gapsFrom d.words.size (dataSlots bits []) = [] := rfl
  rw [none, List.append_nil] at filled
  exact filled

/-- An operand that is a string or an array. -/
theorem fill_inline (laid : Laid bits p d pieces filled (gap :: queue))
    (inline : gap.literal.isInline = true) :
    Laid bits p ((d.data bits gap.literal).fill gap.address d.words.size)
      (pieces ++ [⟨.operand gap.address, d.words.size, gap.literal⟩]) (filled ++ [gap])
      (queue ++ gapsFrom d.words.size (gap.literal.slots bits)) := by
  have here : gap ∈ filled ++ gap :: queue := List.mem_append_right _ List.mem_cons_self
  rw [← dataSlots_singleton ⟨.operand gap.address, d.words.size, gap.literal⟩]
  refine laid.fill (d.grows_operand gap.address gap.literal) ⟨rfl, trivial⟩ ?_ ?_ ?_ ?_ ?_
  · refine laid.owner_append fun old inside same => ?_
    obtain ⟨owner, address, literal⟩ := old
    cases same
    -- An operand that has a piece is filled, and what is filled stands before this gap.
    exact absurd (laid.filled_lt (laid.operand _ address literal inside).1) (Nat.lt_irrefl _)
  · intro address word literal member
    cases List.mem_singleton.1 member
    exact ⟨rfl, inline⟩
  · intro id address literal member
    cases List.mem_singleton.1 member
  · rw [dataSlots_singleton]
    intro other member r mentioned
    exact laid.live gap here r (mention_of_mem_gapsFrom member mentioned)
  · have this : (⟨.operand gap.address, d.words.size, gap.literal⟩ : Piece) ∈
        pieces ++ [⟨.operand gap.address, d.words.size, gap.literal⟩] :=
      List.mem_append_right _ (List.mem_singleton.2 rfl)
    cases literal : gap.literal with
    | number value span => rw [literal] at inline; cases inline
    | reference r => rw [literal] at inline; cases inline
    | _ =>
      rw [literal] at this
      exact this

/-- The first reference to a constant. -/
theorem fill_constant (laid : Laid bits p d pieces filled (gap :: queue)) {r : Reference}
    {id : Nat} {data : Literal} (literal : gap.literal = .reference r)
    (target : r.target? p.labels = some id) (constant : p.data? id = some data)
    (fresh : d.addressOf? id = none) :
    Laid bits p (((d.place id).data bits data).fill gap.address d.words.size)
      (pieces ++ [⟨.constant id, d.words.size, data⟩]) (filled ++ [gap])
      (queue ++ gapsFrom d.words.size (data.slots bits)) := by
  have here : gap ∈ filled ++ gap :: queue := List.mem_append_right _ List.mem_cons_self
  have reached : p.Reached id :=
    laid.live gap here r (by rw [literal]; exact List.mem_singleton.2 rfl) id data target constant
  have grows := d.grows_constant bits id data
  have placed : ((d.place id).data bits data).placements.toList =
      d.placements.toList ++ [⟨id, d.words.size⟩] := grows.placements
  rw [← dataSlots_singleton ⟨.constant id, d.words.size, data⟩]
  refine laid.fill grows ⟨rfl, trivial⟩ ?_ ?_ ?_ ?_ ?_
  · refine laid.owner_append fun old inside same => ?_
    obtain ⟨owner, address, literal⟩ := old
    cases same
    have placed : (⟨id, address⟩ : Placement) ∈ d.placements.toList := by
      rw [laid.placements]
      exact List.mem_append_right _ (List.mem_filterMap.2 ⟨_, inside, rfl⟩)
    exact addressOf?_eq_none fresh placed rfl
  · intro address word literal member
    cases List.mem_singleton.1 member
  · intro other address literal member
    cases List.mem_singleton.1 member
    exact ⟨constant, reached⟩
  · rw [dataSlots_singleton]
    intro other member r mentioned other data target known
    exact .data reached constant (mention_of_mem_gapsFrom member mentioned) target known
  · rw [literal]
    refine ⟨id, target, ?_⟩
    unfold Draft.addressOf? at fresh ⊢
    rw [Option.map_eq_none_iff] at fresh
    have first : [(⟨id, d.words.size⟩ : Placement)].find? (fun p => p.id == id) =
        some ⟨id, d.words.size⟩ := List.find?_cons_of_pos (beq_self_eq_true id)
    rw [← Array.find?_toList, placed, List.find?_append, Array.find?_toList, fresh,
      Option.none_or, first, Option.map_some]

end Laid

/-- The data that filling a gap puts down behind what is there: the copy of an operand, or that of a
    constant without an address. -/
inductive Puts (p : Program) (d : Draft) (gap : Gap) : List Piece → Prop where
  | operand (inline : gap.literal.isInline = true) :
      Puts p d gap [⟨.operand gap.address, d.words.size, gap.literal⟩]
  | constant {r : Reference} {id : Nat} {data : Literal} (literal : gap.literal = .reference r)
      (target : r.target? p.labels = some id) (constant : p.data? id = some data)
      (fresh : d.addressOf? id = none) : Puts p d gap [⟨.constant id, d.words.size, data⟩]
  | nothing {r : Reference} {id address : Nat} (literal : gap.literal = .reference r)
      (target : r.target? p.labels = some id) (found : d.addressOf? id = some address) :
      Puts p d gap []

/-! ## The work that is left

Each gap is filled once, and a constant is put down once; what is left is bounded by the gaps that
are queued, the references in their data, and the references in the constants that have no
address. -/

mutual

theorem references_eq : ∀ literal : Literal, references literal = literal.mentions.length
  | .number _ _ | .text _ _ => rfl
  | .array elements _ => referencesIn_eq elements
  | .reference _ => rfl

theorem referencesIn_eq : ∀ literals : List Literal,
    referencesIn literals = (Literal.mentionsOf literals).length
  | [] => rfl
  | literal :: rest => by
    rw [referencesIn, Literal.mentionsOf, List.length_append, references_eq literal,
      referencesIn_eq rest]

end

/-- The references in the constants that have no address. -/
def unplacedWork (p : Program) (d : Draft) : Nat :=
  (p.statements.toList.map fun s =>
    if (d.addressOf? s.id).isSome then 0 else constantWork s).sum

/-- The work that is left of filling some gaps. -/
def work (p : Program) (d : Draft) (queue : List Gap) : Nat :=
  (queue.map gapWork).sum + unplacedWork p d

theorem gapWork_pos (gap : Gap) : 0 < gapWork gap := by
  unfold gapWork
  split <;> omega

/-- There are as many gaps as slots that stand for a literal. -/
theorem length_gapsFrom (slots : List Slot) : ∀ address : Nat,
    (gapsFrom address slots).length = (slots.filterMap Slot.literal?).length := by
  induction slots with
  | nil => exact fun _ => rfl
  | cons slot rest ih =>
    intro address
    cases slot with
    | word value => exact ih (address + 1)
    | linked literal => exact congrArg (· + 1) (ih (address + 1))

/-- The gaps in data are as many as its references. -/
theorem sum_gapWork_data (literal : Literal) (address : Nat) :
    ((gapsFrom address (literal.slots bits)).map gapWork).sum = references literal := by
  have one : (gapsFrom address (literal.slots bits)).map gapWork =
      (gapsFrom address (literal.slots bits)).map fun _ => 1 := by
    refine List.map_congr_left fun gap member => ?_
    obtain ⟨i, -, found⟩ := mem_gapsFrom.1 member
    obtain ⟨r, -, same⟩ := Literal.linked_mem_slots.1 (List.mem_of_getElem? found)
    unfold gapWork
    rw [same]
  rw [one, List.map_const', List.sum_replicate_nat, Nat.mul_one, length_gapsFrom,
    literal.literals_slots bits, List.length_map, references_eq]

/-- A sum is less by what one of its terms is less. -/
theorem sum_add_le {α : Type} {f g : α → Nat} {c : Nat} {l : List α} (le : ∀ x ∈ l, g x ≤ f x)
    {a : α} (member : a ∈ l) (less : g a + c ≤ f a) : (l.map g).sum + c ≤ (l.map f).sum := by
  induction l with
  | nil => exact absurd member List.not_mem_nil
  | cons x rest ih =>
    have rest_le (l : List α) (le : ∀ x ∈ l, g x ≤ f x) : (l.map g).sum ≤ (l.map f).sum := by
      induction l with
      | nil => exact Nat.le_refl 0
      | cons y rest ih =>
        have first := le y List.mem_cons_self
        have later := ih fun z inside => le z (List.mem_cons_of_mem _ inside)
        simp only [List.map_cons, List.sum_cons]
        omega
    have first := le x List.mem_cons_self
    simp only [List.map_cons, List.sum_cons]
    rcases List.mem_cons.1 member with rfl | later
    · have others := rest_le rest fun y inside => le y (List.mem_cons_of_mem _ inside)
      omega
    · have others := ih (fun y inside => le y (List.mem_cons_of_mem _ inside)) later
      omega

theorem work_append (queue more : List Gap) :
    work p d (queue ++ more) = work p d queue + (more.map gapWork).sum := by
  unfold work
  rw [List.map_append, List.sum_append_nat]
  omega

theorem work_of_placements (same : next.placements = d.placements) (queue : List Gap) :
    work p next queue = work p d queue := by
  unfold work unplacedWork Draft.addressOf?
  rw [same]

theorem work_cons (gap : Gap) (queue : List Gap) :
    work p d (gap :: queue) = gapWork gap + work p d queue := by
  unfold work
  rw [List.map_cons, List.sum_cons]
  omega

/-- Putting a constant down takes the work of its references from that of the constants. -/
theorem unplacedWork_place {s : Statement} {data : Literal} (member : s ∈ p.statements.toList)
    (body : s.body = .constant data) (fresh : d.addressOf? s.id = none)
    (found : (next.addressOf? s.id).isSome = true)
    (kept : ∀ id address, d.addressOf? id = some address → next.addressOf? id = some address) :
    unplacedWork p next + references data ≤ unplacedWork p d := by
  refine sum_add_le (fun other _ => ?_) member ?_
  · cases before : d.addressOf? other.id with
    | none =>
      show (if (next.addressOf? other.id).isSome then 0 else constantWork other) ≤
        constantWork other
      split
      · exact Nat.zero_le _
      · exact Nat.le_refl _
    | some address =>
      exact Nat.le_of_eq (by rw [kept _ _ before])
  · have here : constantWork s = references data := by
      unfold constantWork
      rw [body]
    rw [found, fresh, if_pos rfl, Option.isSome_none, if_neg (by decide), Nat.zero_add]
    exact Nat.le_of_eq here.symm

/-- An operand that is a string or an array leaves the gaps of its data. -/
theorem inline_step (laid : Laid bits p d pieces filled (gap :: queue)) (empty : d.gaps = [])
    (inline : gap.literal.isInline = true) (found : d.data bits gap.literal = next) :
    ∃ put, Puts p d gap put ∧ d.Grows bits put next ∧
      Laid bits p (next.fill gap.address d.words.size) (pieces ++ put) (filled ++ [gap])
        (queue ++ next.gaps.reverse) ∧
      work p (next.fill gap.address d.words.size) (queue ++ next.gaps.reverse) <
        work p d (gap :: queue) := by
  subst found
  have lays : d.Lays (gap.literal.slots bits) (d.data bits gap.literal) := .data gap.literal d
  have gaps : (d.data bits gap.literal).gaps.reverse =
      gapsFrom d.words.size (gap.literal.slots bits) := by
    rw [lays.gaps, empty, List.append_nil, List.reverse_reverse]
  have small : references gap.literal < gapWork gap := by
    unfold gapWork
    split
    · rename_i r literal
      rw [literal] at inline
      cases inline
    · omega
  rw [gaps]
  refine ⟨_, .operand inline, d.grows_operand _ _, laid.fill_inline inline, ?_⟩
  have unplaced : work p ((d.data bits gap.literal).fill gap.address d.words.size) queue =
      work p d queue := work_of_placements lays.placements queue
  rw [work_append, sum_gapWork_data, work_cons, unplaced]
  omega

/-- The first reference to a constant leaves the gaps of its data. -/
theorem constant_step (laid : Laid bits p d pieces filled (gap :: queue)) (empty : d.gaps = [])
    {r : Reference} {s : Statement} {data : Literal} (literal : gap.literal = .reference r)
    (target : r.target? p.labels = some s.id) (inside : p.statements[s.id]? = some s)
    (body : s.body = .constant data) (fresh : d.addressOf? s.id = none)
    (found : (d.place s.id).data bits data = next) :
    ∃ put, Puts p d gap put ∧ d.Grows bits put next ∧
      Laid bits p (next.fill gap.address d.words.size) (pieces ++ put) (filled ++ [gap])
        (queue ++ next.gaps.reverse) ∧
      work p (next.fill gap.address d.words.size) (queue ++ next.gaps.reverse) <
        work p d (gap :: queue) := by
  subst found
  have lays : (d.place s.id).Lays (data.slots bits) ((d.place s.id).data bits data) :=
    .data data (d.place s.id)
  have gaps : ((d.place s.id).data bits data).gaps.reverse =
      gapsFrom d.words.size (data.slots bits) := by
    rw [lays.gaps]
    show (_ ++ d.gaps).reverse = _
    rw [empty, List.append_nil, List.reverse_reverse]
    rfl
  have constant : p.data? s.id = some data := by
    unfold Program.data?
    rw [inside, Option.bind_some, body]
  have filled := laid.fill_constant literal target constant fresh
  obtain ⟨word, -, placed⟩ := filled.links gap (List.mem_append_right _ List.mem_cons_self)
  rw [literal] at placed
  obtain ⟨id, same, recorded⟩ := placed
  rw [target] at same
  cases same
  have grows := d.grows_constant bits s.id data
  have grown : ((d.place s.id).data bits data).placements.toList =
      d.placements.toList ++ [⟨s.id, d.words.size⟩] := grows.placements
  have less := unplacedWork_place (Array.mem_toList_iff.2 (Array.mem_of_getElem? inside)) body
    fresh (Option.isSome_of_eq_some recorded) fun id address => addressOf?_mono grown
  have one : gapWork gap = 1 := by
    unfold gapWork
    rw [literal]
  rw [gaps]
  refine ⟨_, .constant literal target constant fresh, grows, filled, ?_⟩
  rw [work_append, sum_gapWork_data, work_cons]
  unfold work
  omega

/-- Finding the address that fills a gap, and what that leaves. -/
theorem resolve_step (ids : ∀ (i : Nat) (h : i < p.statements.size), p.statements[i].id = i)
    (laid : Laid bits p d pieces filled (gap :: queue)) (empty : d.gaps = [])
    {milestone : Option Milestone}
    (resolved : resolve bits p d gap.literal = .ok (word, next, milestone)) :
    ∃ put, Puts p d gap put ∧ d.Grows bits put next ∧
      Laid bits p (next.fill gap.address word) (pieces ++ put) (filled ++ [gap])
        (queue ++ next.gaps.reverse) ∧
      work p (next.fill gap.address word) (queue ++ next.gaps.reverse) <
        work p d (gap :: queue) := by
  cases literal : gap.literal with
  | number value span =>
    rw [literal] at resolved
    cases resolved
  | text value span =>
    rw [literal] at resolved
    cases resolved
    exact inline_step laid empty (by rw [literal]; rfl) (by rw [literal])
  | array elements span =>
    rw [literal] at resolved
    cases resolved
    exact inline_step laid empty (by rw [literal]; rfl) (by rw [literal])
  | reference r =>
    rw [literal] at resolved
    unfold resolve at resolved
    dsimp only at resolved
    split at resolved
    · cases resolved
    · rename_i target found
      obtain ⟨id, meant, inside⟩ := Option.bind_eq_some_iff.1 found
      obtain ⟨lt, same⟩ := Array.getElem?_eq_some_iff.1 inside
      have own : target.id = id := by
        rw [← same]
        exact ids id lt
      subst own
      split at resolved
      · rename_i address recorded
        cases resolved
        have one : gapWork gap = 1 := by
          unfold gapWork
          rw [literal]
        rw [empty, List.reverse_nil, List.append_nil]
        refine ⟨[], .nothing literal meant recorded,
          ⟨(List.append_nil _).symm, (List.append_nil _).symm⟩, ?_, ?_⟩
        · rw [List.append_nil]
          exact laid.fill_reference literal meant recorded
        · have same : work p (d.fill gap.address word) queue = work p d queue :=
            work_of_placements rfl queue
          rw [work_cons]
          omega
      · rename_i data recorded body
        cases resolved
        exact constant_step laid empty literal meant inside body recorded rfl
      · cases resolved

/-! ## All gaps -/

/-- The draft collects the gaps of one turn only; those of earlier ones are in the queue. -/
theorem Laid.cleared (laid : Laid bits p d pieces filled queue) :
    Laid bits p { d with gaps := [] } pieces filled queue :=
  laid.of_eq rfl rfl

/-- What one turn of the linker leaves. -/
theorem Laid.turn (laid : Laid bits p d pieces filled (gap :: queue))
    (ids : ∀ (i : Nat) (h : i < p.statements.size), p.statements[i].id = i)
    {milestone : Option Milestone}
    (resolved : resolve bits p { d with gaps := [] } gap.literal = .ok (word, next, milestone)) :
    ∃ put, Puts p { d with gaps := [] } gap put ∧
      Draft.Grows bits { d with gaps := [] } put next ∧
      Laid bits p (next.fill gap.address word) (pieces ++ put) (filled ++ [gap])
        (queue ++ next.gaps.reverse) ∧
      work p (next.fill gap.address word) (queue ++ next.gaps.reverse) <
        work p d (gap :: queue) := by
  have same : work p { d with gaps := [] } (gap :: queue) = work p d (gap :: queue) :=
    work_of_placements rfl _
  obtain ⟨put, puts, grows, laid, less⟩ := resolve_step ids laid.cleared rfl resolved
  exact ⟨put, puts, grows, laid, same ▸ less⟩

/-- A bound that covers the work lets every gap be filled, and what each step preserves holds in the
    end. -/
theorem fillGaps_invariant (Inv : List Piece → List Gap → Prop)
    (ids : ∀ (i : Nat) (h : i < p.statements.size), p.statements[i].id = i)
    (step : ∀ {d : Draft} {pieces : List Piece} {filled queue : List Gap} {gap : Gap}
      {put : List Piece}, Laid bits p d pieces filled (gap :: queue) → Puts p d gap put →
        Inv pieces filled → Inv (pieces ++ put) (filled ++ [gap]))
    (bound : Nat) : ∀ {d last : Draft} {pieces : List Piece} {filled queue : List Gap},
    Laid bits p d pieces filled queue → Inv pieces filled → work p d queue ≤ bound →
      (fillGaps bits p bound queue d).value = .ok last →
      ∃ pieces filled, Laid bits p last pieces filled [] ∧ Inv pieces filled := by
  induction bound with
  | zero =>
    intro d last pieces filled queue laid holds enough done
    cases queue with
    | nil =>
      cases done
      exact ⟨pieces, filled, laid, holds⟩
    | cons gap rest =>
      have pos := gapWork_pos gap
      rw [work_cons] at enough
      omega
  | succ bound ih =>
    intro d last pieces filled queue laid holds enough done
    cases queue with
    | nil =>
      cases done
      exact ⟨pieces, filled, laid, holds⟩
    | cons gap rest =>
      unfold fillGaps at done
      split at done
      · cases done
      · rename_i word next resolved
        obtain ⟨put, puts, -, later, less⟩ := laid.turn ids resolved
        exact ih later (step laid.cleared puts holds) (by omega) done
      · rename_i word next milestone resolved
        obtain ⟨put, puts, -, later, less⟩ := laid.turn ids resolved
        exact ih later (step laid.cleared puts holds) (by omega) done

/-- A bound that covers the work lets every gap be filled. -/
theorem fillGaps_laid (ids : ∀ (i : Nat) (h : i < p.statements.size), p.statements[i].id = i)
    (bound : Nat) {d last : Draft} {pieces : List Piece} {filled queue : List Gap}
    (laid : Laid bits p d pieces filled queue) (enough : work p d queue ≤ bound)
    (done : (fillGaps bits p bound queue d).value = .ok last) :
    ∃ pieces filled, Laid bits p last pieces filled [] := by
  obtain ⟨pieces, filled, laid, -⟩ :=
    fillGaps_invariant (fun _ _ => True) ids (fun _ _ _ => trivial) bound laid trivial enough done
  exact ⟨pieces, filled, laid⟩

theorem foldl_add {α : Type} (f : α → Nat) (l : List α) : ∀ start : Nat,
    l.foldl (fun total x => total + f x) start = start + (l.map f).sum := by
  induction l with
  | nil => exact fun _ => rfl
  | cons x rest ih =>
    intro start
    rw [List.foldl_cons, ih, List.map_cons, List.sum_cons, Nat.add_assoc]

/-- The linker's bound covers the work. -/
theorem work_le_workBound (d : Draft) (queue : List Gap) : work p d queue ≤ workBound p queue := by
  have constants : unplacedWork p d ≤ (p.statements.toList.map constantWork).sum := by
    unfold unplacedWork
    induction p.statements.toList with
    | nil => exact Nat.le_refl 0
    | cons s rest ih =>
      simp only [List.map_cons, List.sum_cons]
      refine Nat.add_le_add ?_ ih
      split
      · exact Nat.zero_le _
      · exact Nat.le_refl _
  unfold work workBound
  rw [foldl_add, ← Array.foldl_toList, foldl_add]
  omega

end

end Layout

end NineBit.Asm

import NineBit.Proofs.Asm.Statements
import NineBit.Proofs.Isa.Encoding

/-!
# What an image consists of

An image is a row of slots: a slot is a word that is known, or stands for a literal whose word the
linker finds (`Slot`). A statement has one slot for its opcode and one for each operand
(`Statement.slots`), and a literal that is put down as data has one for each character and element
at any depth (`Literal.slots`). The image is the code of its program and then pieces of data
(`Program.image`). Each piece has an owner: an operand that is a string or an array owns a copy of
its data, and a constant owns the one place where its data stands.

A draft grows by slots (`Layout.Draft.Lays`): the known words are put down at once, and the others
leave the gaps that `Layout.gapsFrom` lists.
-/

namespace NineBit.Asm

/-- A word of an image. -/
inductive Slot where
  | word (value : Nat)
  /-- A word that stands for a literal. -/
  | linked (literal : Literal)

/-- The literal that a slot stands for. -/
def Slot.literal? : Slot → Option Literal
  | word _ => none
  | linked literal => some literal

/-- What a slot holds before it is linked. -/
def Slot.blank : Slot → Nat
  | word value => value
  | linked _ => 0

mutual

/-- The slots of a literal as data: the characters of a string, the elements of an array spliced
    in. -/
def Literal.slots (bits : Nat) : Literal → List Slot
  | .number value _ => [.word (value % wordCount bits)]
  | .text value _ => value.toList.map fun c => .word (c.toNat % wordCount bits)
  | .array elements _ => Literal.slotsOf bits elements
  | .reference r => [.linked (.reference r)]

/-- The slots of some literals as data. -/
def Literal.slotsOf (bits : Nat) : List Literal → List Slot
  | [] => []
  | literal :: rest => literal.slots bits ++ Literal.slotsOf bits rest

end

/-- A string or an array, of which an operand gets a copy of its own. -/
def Literal.isInline : Literal → Bool
  | .text _ _ | .array _ _ => true
  | _ => false

/-- The slot of a literal as an operand. -/
def Literal.operand (bits : Nat) : Literal → Slot
  | .number value _ => .word (value % wordCount bits)
  | literal => .linked literal

/-- The instruction of a statement that is code. -/
def Statement.opcode? (s : Statement) : Option Isa.Opcode :=
  match s.body with
  | .movement destination source _ _ => some (.movement source destination)
  | .condition c => some (.condition c)
  | .action x => some (.action x)
  | .constant _ => none

/-- The operands of a statement: that of its source, then that of its destination. -/
def Statement.operands (s : Statement) : List Literal :=
  match s.body with
  | .movement _ _ destinationLiteral sourceLiteral =>
    sourceLiteral.toList ++ destinationLiteral.toList
  | _ => []

/-- The slots of a statement: the word of its instruction, then its operands. -/
def Statement.slots (bits : Nat) (s : Statement) : List Slot :=
  match s.opcode? with
  | some opcode => .word opcode.word :: s.operands.map (Literal.operand bits)
  | none => []

/-- The slots of a program's code. -/
def Program.code (bits : Nat) (p : Program) : List Slot :=
  p.executable.flatMap (Statement.slots bits)

/-- The data of a constant, given by its index. -/
def Program.data? (p : Program) (id : Nat) : Option Literal :=
  (p.statements[id]?).bind fun s =>
    match s.body with
    | .constant literal => some literal
    | _ => none

/-- The constants that the code refers to, directly or through other constants. -/
inductive Program.Reached (p : Program) : Nat → Prop where
  | code {s : Statement} {literal data : Literal} {r : Reference} {id : Nat}
      (executable : s ∈ p.executable) (operand : literal ∈ s.operands)
      (mentioned : r ∈ literal.mentions) (target : r.target? p.labels = some id)
      (constant : p.data? id = some data) : Reached p id
  | data {source id : Nat} {literal data : Literal} {r : Reference} (reached : Reached p source)
      (constant : p.data? source = some literal) (mentioned : r ∈ literal.mentions)
      (target : r.target? p.labels = some id) (other : p.data? id = some data) : Reached p id

/-- What a piece of data belongs to: the operand at an address, or a constant. -/
inductive Owner where
  | operand (address : Nat)
  | constant (id : Nat)
  deriving DecidableEq

/-- A literal that is put down as data. -/
structure Piece where
  owner : Owner
  address : Nat
  literal : Literal

/-- The slots of pieces of data, one after the other. -/
def dataSlots (bits : Nat) (pieces : List Piece) : List Slot :=
  pieces.flatMap fun piece => piece.literal.slots bits

/-- The slots of an image: the code, and then pieces of data. -/
def Program.image (bits : Nat) (p : Program) (pieces : List Piece) : List Slot :=
  p.code bits ++ dataSlots bits pieces

/-- The word of a literal at an address: the address of what a reference means, and of the piece
    that an operand owns. -/
def LinksTo (p : Program) (addressOf? : Nat → Option Nat) (pieces : List Piece) (address : Nat)
    (literal : Literal) (word : Nat) : Prop :=
  match literal with
  | .reference r => ∃ id, r.target? p.labels = some id ∧ addressOf? id = some word
  | literal => ⟨.operand address, word, literal⟩ ∈ pieces

theorem LinksTo.mono {p : Program} {pieces more : List Piece} {word : Nat}
    {before after : Nat → Option Nat} {address : Nat} {literal : Literal}
    (links : LinksTo p before pieces address literal word)
    (kept : ∀ id address, before id = some address → after id = some address)
    (sub : ∀ piece ∈ pieces, piece ∈ more) : LinksTo p after more address literal word := by
  cases literal with
  | reference r =>
    obtain ⟨id, target, found⟩ := links
    exact ⟨id, target, kept id word found⟩
  | _ => exact sub _ links

/-! ## Literals that slots stand for -/

mutual

theorem Literal.literals_slots (bits : Nat) : ∀ literal : Literal,
    (literal.slots bits).filterMap Slot.literal? = literal.mentions.map Literal.reference
  | .number _ _ => rfl
  | .text value _ => by
    rw [Literal.slots, List.filterMap_map]
    exact List.filterMap_eq_nil_iff.2 fun _ _ => rfl
  | .array elements _ => Literal.literals_slotsOf bits elements
  | .reference _ => rfl

theorem Literal.literals_slotsOf (bits : Nat) : ∀ literals : List Literal,
    (Literal.slotsOf bits literals).filterMap Slot.literal? =
      (Literal.mentionsOf literals).map Literal.reference
  | [] => rfl
  | literal :: rest => by
    rw [Literal.slotsOf, Literal.mentionsOf, List.filterMap_append, List.map_append,
      literal.literals_slots bits, Literal.literals_slotsOf bits rest]

end

/-- In data, the slots that stand for a literal are those of its references. -/
theorem Literal.linked_mem_slots {bits : Nat} {literal inner : Literal} :
    Slot.linked inner ∈ literal.slots bits ↔ ∃ r ∈ literal.mentions, inner = .reference r := by
  have literals := literal.literals_slots bits
  have mem : inner ∈ (literal.slots bits).filterMap Slot.literal? ↔
      Slot.linked inner ∈ literal.slots bits := by
    rw [List.mem_filterMap]
    constructor
    · rintro ⟨slot, member, same⟩
      cases slot with
      | word value => cases same
      | linked literal =>
        cases same
        exact member
    · exact fun member => ⟨_, member, rfl⟩
  rw [← mem, literals, List.mem_map]
  constructor
  · rintro ⟨r, member, rfl⟩
    exact ⟨r, member, rfl⟩
  · rintro ⟨r, member, rfl⟩
    exact ⟨r, member, rfl⟩

namespace Layout

/-! ## Gaps -/

/-- The gaps of slots from an address on, by ascending address. -/
def gapsFrom (address : Nat) : List Slot → List Gap
  | [] => []
  | .word _ :: rest => gapsFrom (address + 1) rest
  | .linked literal :: rest => ⟨address, literal⟩ :: gapsFrom (address + 1) rest

theorem gapsFrom_append (first second : List Slot) : ∀ address : Nat,
    gapsFrom address (first ++ second) =
      gapsFrom address first ++ gapsFrom (address + first.length) second := by
  induction first with
  | nil => exact fun _ => rfl
  | cons slot rest ih =>
    intro address
    have later : address + 1 + rest.length = address + (slot :: rest).length := by
      rw [List.length_cons]
      omega
    cases slot with
    | word value =>
      show gapsFrom (address + 1) (rest ++ second) = gapsFrom (address + 1) rest ++ _
      rw [ih, later]
    | linked literal =>
      show _ :: gapsFrom (address + 1) (rest ++ second) = _ :: gapsFrom (address + 1) rest ++ _
      rw [ih, later]
      rfl

/-- A gap is where a slot stands for a literal. -/
theorem mem_gapsFrom {gap : Gap} : ∀ {slots : List Slot} {address : Nat},
    gap ∈ gapsFrom address slots ↔
      ∃ i, gap.address = address + i ∧ slots[i]? = some (.linked gap.literal) := by
  intro slots
  induction slots with
  | nil =>
    intro address
    refine ⟨fun member => absurd member List.not_mem_nil, ?_⟩
    rintro ⟨i, -, none⟩
    cases none
  | cons slot rest ih =>
    intro address
    have later : gap ∈ gapsFrom (address + 1) rest ↔
        ∃ i, gap.address = address + (i + 1) ∧
          (slot :: rest)[i + 1]? = some (.linked gap.literal) := by
      rw [ih]
      constructor
      · rintro ⟨i, same, found⟩
        exact ⟨i, by omega, found⟩
      · rintro ⟨i, same, found⟩
        exact ⟨i, by omega, found⟩
    cases slot with
    | word value =>
      show gap ∈ gapsFrom (address + 1) rest ↔ _
      rw [later]
      constructor
      · rintro ⟨i, same, found⟩
        exact ⟨i + 1, same, found⟩
      · rintro ⟨i, same, found⟩
        cases i with
        | zero => cases found
        | succ i => exact ⟨i, same, found⟩
    | linked literal =>
      show gap ∈ _ :: gapsFrom (address + 1) rest ↔ _
      rw [List.mem_cons, later]
      constructor
      · rintro (rfl | ⟨i, same, found⟩)
        · exact ⟨0, rfl, rfl⟩
        · exact ⟨i + 1, same, found⟩
      · rintro ⟨i, same, found⟩
        cases i with
        | zero =>
          left
          cases gap
          cases found
          cases same
          rfl
        | succ i => exact .inr ⟨i, same, found⟩

/-- The gaps come by ascending address. -/
theorem gapsFrom_sorted (slots : List Slot) : ∀ address : Nat,
    (gapsFrom address slots).Pairwise fun x y => x.address < y.address := by
  induction slots with
  | nil => exact fun _ => .nil
  | cons slot rest ih =>
    intro address
    cases slot with
    | word value => exact ih (address + 1)
    | linked literal =>
      refine .cons (fun gap member => ?_) (ih (address + 1))
      obtain ⟨i, same, -⟩ := mem_gapsFrom.1 member
      show address < gap.address
      omega

/-! ## Drafts that grow -/

/-- A draft has grown by slots. -/
structure Draft.Lays (d : Draft) (slots : List Slot) (next : Draft) : Prop where
  words : next.words.toList = d.words.toList ++ slots.map Slot.blank
  placements : next.placements = d.placements
  gaps : next.gaps = (gapsFrom d.words.size slots).reverse ++ d.gaps

namespace Draft.Lays

variable {bits : Nat} {d middle next : Draft} {first second : List Slot}

theorem size (lays : d.Lays first next) : next.words.size = d.words.size + first.length := by
  rw [← Array.length_toList, lays.words, List.length_append, List.length_map, Array.length_toList]

theorem refl (d : Draft) : d.Lays [] d where
  words := (List.append_nil _).symm
  placements := rfl
  gaps := rfl

theorem trans (before : d.Lays first middle) (after : middle.Lays second next) :
    d.Lays (first ++ second) next where
  words := by rw [after.words, before.words, List.map_append, List.append_assoc]
  placements := after.placements.trans before.placements
  gaps := by
    rw [after.gaps, before.gaps, before.size, gapsFrom_append, List.reverse_append,
      List.append_assoc]

theorem emit (d : Draft) (value : Nat) :
    d.Lays [.word (value % wordCount bits)] (d.emit bits value) where
  words := Array.toList_push
  placements := rfl
  gaps := rfl

theorem leave (d : Draft) (literal : Literal) : d.Lays [.linked literal] (d.leave literal) where
  words := Array.toList_push
  placements := rfl
  gaps := rfl

theorem operand (d : Draft) (literal : Literal) :
    d.Lays [literal.operand bits] (d.operand bits literal) := by
  cases literal with
  | number value span => exact emit d value
  | _ => exact leave d _

theorem operand? (bits : Nat) (d : Draft) {takesWord : Bool} {literal : Option Literal}
    (complete : takesWord = literal.isSome) :
    d.Lays (literal.toList.map (Literal.operand bits)) (d.operand? bits takesWord literal) := by
  subst complete
  cases literal with
  | none => exact refl d
  | some literal => exact operand d literal

theorem characters (text : List Char) : ∀ d : Draft,
    d.Lays (text.map fun c => .word (c.toNat % wordCount bits))
      (text.foldl (fun d c => d.emit bits c.toNat) d) := by
  induction text with
  | nil => exact refl
  | cons c rest ih => exact fun d => (emit d c.toNat).trans (ih _)

mutual

/-- Data is laid as its slots say. -/
theorem data : ∀ (literal : Literal) (d : Draft), d.Lays (literal.slots bits) (d.data bits literal)
  | .number value _, d => emit d value
  | .text value _, d => characters value.toList d
  | .array elements _, d => dataList elements d
  | .reference _, d => leave d _

theorem dataList : ∀ (literals : List Literal) (d : Draft),
    d.Lays (Literal.slotsOf bits literals) (d.dataList bits literals)
  | [], d => refl d
  | literal :: rest, d => (data literal d).trans (dataList rest _)

end

end Draft.Lays

/-! ## Code -/

section
variable {bits : Nat}

/-- A statement that is code is laid behind its own address. -/
theorem Draft.lays_statement (wide : 9 ≤ bits) {s : Statement} (code : s.isConstant = false)
    (complete : s.body.Complete) (d : Draft) :
    (d.place s.id).Lays (s.slots bits) (d.statement bits s) := by
  have opcode (opcode : Isa.Opcode) (d : Draft) :
      d.Lays [.word opcode.word] (d.emit bits opcode.word) := by
    have emitted : d.Lays [.word (opcode.word % wordCount bits)] (d.emit bits opcode.word) :=
      .emit d opcode.word
    rw [Nat.mod_eq_of_lt (opcode.word_lt_wordCount wide)] at emitted
    exact emitted
  obtain ⟨id, span, label, body⟩ := s
  cases body with
  | movement destination source destinationLiteral sourceLiteral =>
    have first := opcode (.movement source destination) (d.place id)
    have second := first.trans (.operand? bits _ complete.2)
    have third := second.trans (.operand? bits _ complete.1)
    rw [List.append_assoc, ← List.map_append] at third
    exact third
  | condition c => exact opcode (.condition c) (d.place id)
  | action x => exact opcode (.action x) (d.place id)
  | constant l => cases code

/-- The addresses of statements that are laid one after the other. -/
def placesFrom (bits address : Nat) : List Statement → List Placement
  | [] => []
  | s :: rest => ⟨s.id, address⟩ :: placesFrom bits (address + (s.slots bits).length) rest

/-- What a draft is behind the code of some statements. -/
structure Draft.Codes (bits : Nat) (d : Draft) (statements : List Statement) (next : Draft) :
    Prop where
  words : next.words.toList =
    d.words.toList ++ (statements.flatMap (Statement.slots bits)).map Slot.blank
  placements : next.placements.toList =
    d.placements.toList ++ placesFrom bits d.words.size statements
  gaps : next.gaps =
    (gapsFrom d.words.size (statements.flatMap (Statement.slots bits))).reverse ++ d.gaps

theorem Draft.codes_foldl (wide : 9 ≤ bits) (statements : List Statement) : ∀ d : Draft,
    (∀ s ∈ statements, s.isConstant = false ∧ s.body.Complete) →
      Draft.Codes bits d statements (statements.foldl (Draft.statement bits) d) := by
  induction statements with
  | nil => exact fun d _ => ⟨(List.append_nil _).symm, (List.append_nil _).symm, rfl⟩
  | cons s rest ih =>
    intro d valid
    obtain ⟨code, complete⟩ := valid s List.mem_cons_self
    have first := Draft.lays_statement wide code complete d
    have later := ih (d.statement bits s) fun other member =>
      valid other (List.mem_cons_of_mem _ member)
    have size := first.size
    have placed : (d.statement bits s).placements.toList =
        d.placements.toList ++ [⟨s.id, d.words.size⟩] := by
      rw [first.placements]
      exact Array.toList_push
    refine ⟨?_, ?_, ?_⟩
    · rw [List.foldl_cons, later.words, first.words, List.flatMap_cons, List.map_append,
        List.append_assoc]
      rfl
    · rw [List.foldl_cons, later.placements, placed, size, List.append_assoc]
      rfl
    · rw [List.foldl_cons, later.gaps, first.gaps, size, List.flatMap_cons, gapsFrom_append,
        List.reverse_append, List.append_assoc]
      rfl

/-- The code of a program, as its slots say. -/
theorem codes_code (wide : 9 ≤ bits) {limit : Int} {p : Program} (parsed : p.Parsed limit) :
    Draft.Codes bits ⟨#[], #[], []⟩ p.executable (code bits p.executable) := by
  refine Draft.codes_foldl wide _ _ fun s member => ?_
  obtain ⟨inside, code⟩ := List.mem_filter.1 member
  rw [Bool.not_eq_true'] at code
  exact ⟨code, parsed.sound.2 s (Array.mem_toList_iff.1 inside)⟩

end

end Layout

end NineBit.Asm

import NineBit.Proofs.Asm.Linking

/-!
# Linked images

`Linked` says what an image is: the words are those of the slots of the code and of the pieces of
data behind it, references stand for the addresses of what they mean, operands with a piece stand
for the address of that piece, and a constant is there just when the code reaches it.

Once the linker has filled every gap, the draft is such an image (`Layout.Laid.linked`): no
statement has been placed twice, so that the addresses recorded are those of the placements, and
what a reached constant mentions stands in data that is there, whose gaps are filled too.
-/

namespace NineBit.Asm

/-- The word of a slot at an address. -/
def Output.Settles (o : Output) (pieces : List Piece) (address : Nat) : Slot → Nat → Prop
  | .word value, word => word = value
  | .linked literal, word => LinksTo o.program o.addressOfId? pieces address literal word

/-- An output is the linked image of its program. -/
structure Linked (bits : Nat) (o : Output) (pieces : List Piece) : Prop where
  /-- The image is as long as its slots are many. -/
  size : o.words.size = (o.program.image bits pieces).length
  /-- Each word is what its slot says. -/
  word : ∀ (i : Nat) (slot : Slot), (o.program.image bits pieces)[i]? = some slot →
    ∃ word, o.words[i]? = some word ∧ o.Settles pieces i slot word
  /-- A statement that is code stands behind those before it. -/
  code : ∀ (before : List Statement) (s : Statement) (after : List Statement),
    o.program.executable = before ++ s :: after →
      o.addressOfId? s.id = some (before.flatMap (Statement.slots bits)).length
  /-- A piece of data stands behind the code and the pieces before it. -/
  piece : ∀ (before : List Piece) (piece : Piece) (after : List Piece),
    pieces = before ++ piece :: after →
      piece.address = (o.program.image bits before).length
  /-- Each owner has one piece. -/
  owner : (pieces.map Piece.owner).Nodup
  /-- An operand with a piece is a string or an array. -/
  operand : ∀ (address word : Nat) (literal : Literal),
    ⟨.operand address, word, literal⟩ ∈ pieces →
      (o.program.code bits)[address]? = some (.linked literal) ∧ literal.isInline = true
  /-- A constant with a piece is one with an address. -/
  constant : ∀ (id address : Nat) (literal : Literal),
    ⟨.constant id, address, literal⟩ ∈ pieces ↔
      o.program.data? id = some literal ∧ o.addressOfId? id = some address
  /-- Only code and constants have an address. -/
  placed : ∀ (id address : Nat), o.addressOfId? id = some address →
    (∃ s ∈ o.program.executable, s.id = id) ∨ ∃ literal, o.program.data? id = some literal
  /-- A constant has an address just when the code reaches it. -/
  reached : ∀ (id : Nat) (literal : Literal), o.program.data? id = some literal →
    ((o.addressOfId? id).isSome = true ↔ o.program.Reached id)

namespace Layout

section
variable {bits : Nat} {p : Program} {d : Draft} {pieces : List Piece} {filled queue : List Gap}

/-! ## Where statements stand -/

/-- Every statement has an index of its own. -/
theorem executable_nodup (ids : ∀ (i : Nat) (h : i < p.statements.size), p.statements[i].id = i) :
    (p.executable.map Statement.id).Nodup := by
  have sorted : p.statements.toList.Pairwise fun s other => s.id ≠ other.id := by
    rw [List.pairwise_iff_getElem]
    intro i j first second lt
    simp only [Array.getElem_toList, ids]
    omega
  exact List.pairwise_map.2 (sorted.sublist List.filter_sublist)

/-- No statement that is code is a constant. -/
theorem executable_data? (ids : ∀ (i : Nat) (h : i < p.statements.size), p.statements[i].id = i)
    {s : Statement} (member : s ∈ p.executable) : p.data? s.id = none := by
  obtain ⟨inside, code⟩ := List.mem_filter.1 member
  obtain ⟨i, lt, same⟩ := Array.getElem_of_mem (Array.mem_toList_iff.1 inside)
  have own : s.id = i := by
    rw [← same]
    exact ids i lt
  unfold Program.data?
  rw [own, Array.getElem?_eq_getElem lt, same, Option.bind_some]
  cases body : s.body with
  | constant literal =>
    unfold Statement.isConstant at code
    rw [body] at code
    cases code
  | _ => rfl

theorem map_id_placesFrom (statements : List Statement) : ∀ address : Nat,
    (placesFrom bits address statements).map Placement.id = statements.map Statement.id := by
  induction statements with
  | nil => exact fun _ => rfl
  | cons s rest ih => exact fun address => congrArg (s.id :: ·) (ih _)

theorem mem_placesFrom (bits : Nat) (before : List Statement) (s : Statement)
    (after : List Statement) :
    ∀ address : Nat,
      ⟨s.id, address + (before.flatMap (Statement.slots bits)).length⟩ ∈
        placesFrom bits address (before ++ s :: after) := by
  induction before with
  | nil => exact fun address => List.mem_cons_self
  | cons first rest ih =>
    intro address
    have later := ih (address + (first.slots bits).length)
    rw [Nat.add_assoc, ← List.length_append] at later
    exact List.mem_cons_of_mem _ later

/-- The constant of a placement that a piece of data makes. -/
theorem mem_filterMap_placement? {placement : Placement} :
    placement ∈ pieces.filterMap placement? ↔
      ∃ literal, ⟨.constant placement.id, placement.address, literal⟩ ∈ pieces := by
  rw [List.mem_filterMap]
  constructor
  · rintro ⟨⟨owner, address, literal⟩, member, same⟩
    cases owner with
    | operand slot => cases same
    | constant id =>
      cases same
      exact ⟨literal, member⟩
  · rintro ⟨literal, member⟩
    exact ⟨_, member, rfl⟩

namespace Laid

/-- No statement is placed twice. -/
theorem placements_nodup
    (ids : ∀ (i : Nat) (h : i < p.statements.size), p.statements[i].id = i)
    (laid : Laid bits p d pieces filled queue) :
    (d.placements.toList.map Placement.id).Nodup := by
  rw [laid.placements, List.map_append, map_id_placesFrom, List.nodup_append]
  refine ⟨executable_nodup ids, ?_, fun id member other inside => ?_⟩
  · have owners := laid.owner
    clear laid
    induction pieces with
    | nil => exact List.nodup_nil
    | cons piece rest ih =>
      obtain ⟨fresh, later⟩ := List.nodup_cons.1 owners
      obtain ⟨owner, address, literal⟩ := piece
      cases owner with
      | operand slot => exact ih later
      | constant id =>
        refine List.nodup_cons.2 ⟨fun member => fresh ?_, ih later⟩
        obtain ⟨placement, inside, same⟩ := List.mem_map.1 member
        obtain ⟨literal, found⟩ := mem_filterMap_placement?.1 inside
        rw [same] at found
        exact List.mem_map.2 ⟨_, found, rfl⟩
  · rintro rfl
    obtain ⟨s, executable, rfl⟩ := List.mem_map.1 member
    obtain ⟨placement, placed, same⟩ := List.mem_map.1 inside
    obtain ⟨literal, found⟩ := mem_filterMap_placement?.1 placed
    have constant := (laid.constant _ _ _ found).1
    rw [same, executable_data? ids executable] at constant
    cases constant

/-- The addresses recorded are those of the placements. -/
theorem addressOf?_eq_some
    (ids : ∀ (i : Nat) (h : i < p.statements.size), p.statements[i].id = i)
    (laid : Laid bits p d pieces filled queue) {id address : Nat} :
    d.addressOf? id = some address ↔ ⟨id, address⟩ ∈ d.placements.toList := by
  have nodup := laid.placements_nodup ids
  unfold Draft.addressOf?
  rw [← Array.find?_toList, Option.map_eq_some_iff]
  generalize d.placements.toList = placements at nodup
  constructor
  · rintro ⟨placement, found, rfl⟩
    have same : placement.id = id :=
      beq_iff_eq.1 (List.find?_some (p := fun q : Placement => q.id == id) found)
    rw [← same]
    exact List.mem_of_find?_eq_some found
  · intro member
    refine ⟨⟨id, address⟩, ?_, rfl⟩
    induction placements with
    | nil => exact absurd member List.not_mem_nil
    | cons first rest ih =>
      obtain ⟨fresh, later⟩ := List.nodup_cons.1 nodup
      rcases List.mem_cons.1 member with rfl | inside
      · exact List.find?_cons_of_pos (beq_self_eq_true id)
      · have ne : ¬(first.id == id) = true := by
          intro same
          exact fresh (List.mem_map.2 ⟨_, inside, (beq_iff_eq.1 same).symm⟩)
        exact (List.find?_cons_of_neg (p := fun q : Placement => q.id == id) ne).trans
          (ih later inside)

/-- A constant with an address has a piece of data there. -/
theorem constant_iff (ids : ∀ (i : Nat) (h : i < p.statements.size), p.statements[i].id = i)
    (laid : Laid bits p d pieces filled queue) {id address : Nat} {literal : Literal} :
    ⟨.constant id, address, literal⟩ ∈ pieces ↔
      p.data? id = some literal ∧ d.addressOf? id = some address := by
  rw [laid.addressOf?_eq_some ids, laid.placements, List.mem_append]
  constructor
  · intro member
    refine ⟨(laid.constant _ _ _ member).1, .inr ?_⟩
    exact mem_filterMap_placement?.2 ⟨literal, member⟩
  · rintro ⟨data, code | constant⟩
    · have inside := List.mem_map_of_mem (f := Placement.id) code
      rw [map_id_placesFrom] at inside
      obtain ⟨s, executable, same⟩ := List.mem_map.1 inside
      have none := executable_data? ids executable
      rw [same, data] at none
      cases none
    · obtain ⟨other, member⟩ := mem_filterMap_placement?.1 constant
      have same := (laid.constant _ _ _ member).1
      rw [data] at same
      cases same
      exact member

/-- What is known of a slot once all gaps are filled. -/
theorem slot_links (laid : Laid bits p d pieces filled []) {i : Nat} {literal : Literal}
    (found : (p.image bits pieces)[i]? = some (.linked literal)) :
    ∃ word, d.words[i]? = some word ∧ LinksTo p d.addressOf? pieces i literal word := by
  have member : (⟨i, literal⟩ : Gap) ∈ gapsFrom 0 (p.image bits pieces) :=
    mem_gapsFrom.2 ⟨i, (Nat.zero_add i).symm, found⟩
  rw [laid.gaps, List.append_nil] at member
  exact laid.links _ member

/-- Whatever a reference in the image means has an address. -/
theorem addressed (laid : Laid bits p d pieces filled []) {r : Reference} {id : Nat}
    (member : Slot.linked (.reference r) ∈ p.image bits pieces)
    (target : r.target? p.labels = some id) : (d.addressOf? id).isSome = true := by
  obtain ⟨i, found⟩ := List.mem_iff_getElem?.1 member
  obtain ⟨word, -, other, same, recorded⟩ := laid.slot_links found
  rw [target] at same
  cases same
  exact Option.isSome_of_eq_some recorded

theorem mention_mem {literal : Literal} {piece : Piece} (member : piece ∈ pieces)
    (same : piece.literal = literal) {r : Reference} (mentioned : r ∈ literal.mentions) :
    Slot.linked (.reference r) ∈ p.image bits pieces := by
  subst same
  refine List.mem_append_right _ (List.mem_flatMap.2 ⟨piece, member, ?_⟩)
  exact Literal.linked_mem_slots.2 ⟨r, mentioned, rfl⟩

/-- Whatever the code reaches has an address. -/
theorem addressed_of_reached
    (ids : ∀ (i : Nat) (h : i < p.statements.size), p.statements[i].id = i)
    (laid : Laid bits p d pieces filled []) {id : Nat} (reached : p.Reached id) :
    (d.addressOf? id).isSome = true := by
  induction reached with
  | @code s literal data r id executable operand mentioned target constant =>
    cases literal with
    | number value span => exact absurd mentioned List.not_mem_nil
    | text value span => exact absurd mentioned List.not_mem_nil
    | reference other =>
      cases List.mem_singleton.1 mentioned
      exact laid.addressed (List.mem_append_left _ (linked_mem_code executable operand rfl))
        target
    | array elements span =>
      obtain ⟨i, found⟩ := List.mem_iff_getElem?.1 (List.mem_append_left
        (dataSlots bits pieces) (linked_mem_code executable operand rfl))
      obtain ⟨word, -, owned⟩ := laid.slot_links found
      exact laid.addressed (mention_mem owned rfl mentioned) target
  | @data source id literal data r reached constant mentioned target other ih =>
    obtain ⟨address, recorded⟩ := Option.isSome_iff_exists.1 ih
    have member := (laid.constant_iff ids).2 ⟨constant, recorded⟩
    exact laid.addressed (mention_mem member rfl mentioned) target

theorem row_split {piece : Piece} {before after : List Piece} {address : Nat}
    (row : Row bits address (before ++ piece :: after)) :
    piece.address = address + (dataSlots bits before).length :=
  (row_append.1 row).2.1

/-- The piece of an operand is that of a slot of the code. -/
theorem operand_slot (laid : Laid bits p d pieces filled []) {address word : Nat}
    {literal : Literal} (member : ⟨.operand address, word, literal⟩ ∈ pieces) :
    (p.code bits)[address]? = some (.linked literal) ∧ literal.isInline = true := by
  obtain ⟨done, inline⟩ := laid.operand address word literal member
  refine ⟨?_, inline⟩
  have found := laid.gap_slot (List.mem_append_left _ done)
  by_cases code : address < (p.code bits).length
  · exact (List.getElem?_append_left code).symm.trans found
  · have data := (List.getElem?_append_right (Nat.not_lt.1 code)).symm.trans found
    obtain ⟨piece, -, inside⟩ := List.mem_flatMap.1 (List.mem_of_getElem? data)
    obtain ⟨r, -, same⟩ := Literal.linked_mem_slots.1 inside
    cases same
    cases inline

/-- Once all gaps are filled, the draft is a linked image. -/
theorem linked {limit : Int} (parsed : p.Parsed limit) (laid : Laid bits p d pieces filled []) :
    Linked bits ⟨d.words, d.placements, p⟩ pieces where
  size := laid.size
  word i slot found := by
    cases slot with
    | word value => exact ⟨value, laid.word i value found, rfl⟩
    | linked literal => exact laid.slot_links found
  code before s after same := by
    refine (laid.addressOf?_eq_some parsed.sound.1).2 ?_
    rw [laid.placements]
    have placed := mem_placesFrom bits before s after 0
    rw [Nat.zero_add, ← same] at placed
    exact List.mem_append_left _ placed
  piece before piece after same := by
    have row := laid.row
    rw [same] at row
    rw [row_split row]
    exact List.length_append.symm
  owner := laid.owner
  operand _ _ _ := laid.operand_slot
  constant _ _ _ := laid.constant_iff parsed.sound.1
  placed id address found := by
    have member := (laid.addressOf?_eq_some parsed.sound.1).1 found
    rw [laid.placements, List.mem_append] at member
    rcases member with code | constant
    · have inside := List.mem_map_of_mem (f := Placement.id) code
      rw [map_id_placesFrom] at inside
      exact .inl (List.mem_map.1 inside)
    · obtain ⟨literal, data⟩ := mem_filterMap_placement?.1 constant
      exact .inr ⟨literal, (laid.constant _ _ _ data).1⟩
  reached id literal data := by
    refine ⟨fun placed => ?_, laid.addressed_of_reached parsed.sound.1⟩
    obtain ⟨address, recorded⟩ := Option.isSome_iff_exists.1 placed
    have piece := (laid.constant_iff parsed.sound.1).2 ⟨data, recorded⟩
    exact (laid.constant _ _ _ piece).2

end Laid

end

end Layout

/-! ## The words of a statement -/

section
variable {bits : Nat} {o : Output} {pieces : List Piece} {s : Statement} {address : Nat}

/-- The words of a statement in a linked image are those of its slots. -/
theorem Linked.statement_word (linked : Linked bits o pieces) (member : s ∈ o.program.executable)
    (found : o.addressOfId? s.id = some address) {k : Nat} {slot : Slot}
    (inside : (s.slots bits)[k]? = some slot) :
    ∃ word, o.words[address + k]? = some word ∧ o.Settles pieces (address + k) slot word := by
  obtain ⟨before, after, same⟩ := List.append_of_mem member
  have recorded := linked.code before s after same
  rw [found] at recorded
  cases recorded
  refine linked.word _ slot ?_
  have lt := (List.getElem?_eq_some_iff.1 inside).1
  unfold Program.image Program.code
  rw [same, List.flatMap_append, List.flatMap_cons, List.append_assoc, List.append_assoc,
    List.getElem?_append_right (by omega), Nat.add_sub_cancel_left, List.getElem?_append_left lt]
  exact inside

theorem Program.opcode_of_executable {p : Program} (member : s ∈ p.executable) :
    ∃ opcode, s.opcode? = some opcode := by
  obtain ⟨-, code⟩ := List.mem_filter.1 member
  obtain ⟨id, span, label, body⟩ := s
  cases body with
  | constant literal => cases code
  | _ => exact ⟨_, rfl⟩

/-- The machine counts as many operands as the statement has. -/
theorem Statement.operandCount_eq {opcode : Isa.Opcode} (complete : s.body.Complete)
    (found : s.opcode? = some opcode) : Isa.operandCount opcode.word = s.operands.length := by
  rw [Isa.operandCount_word]
  obtain ⟨id, span, label, body⟩ := s
  cases body with
  | movement destination source destinationLiteral sourceLiteral =>
    cases found
    obtain ⟨second, first⟩ := complete
    show (if source.takesWord = true then 1 else 0) +
        (if destination.takesWord = true then 1 else 0) =
      (sourceLiteral.toList ++ destinationLiteral.toList).length
    rw [first, second, List.length_append]
    cases sourceLiteral <;> cases destinationLiteral <;> rfl
  | condition c => cases found; rfl
  | action x => cases found; rfl
  | constant literal => cases found

end

/-- The output of an assembly is a draft in which all gaps are filled. -/
theorem Output.Assembled.exists_laid {config : Config} {source : Source} {o : Output}
    (assembled : o.Assembled config source) : ∃ d pieces filled,
      o = ⟨d.words, d.placements, o.program⟩ ∧
        Layout.Laid config.wordBits o.program d pieces filled [] := by
  obtain ⟨d, filled, same⟩ := layout_eq_ok assembled.laid
  have start := Layout.laid_code config.nine_le_wordBits assembled.parsed
  obtain ⟨pieces, gaps, laid⟩ := Layout.fillGaps_laid assembled.parsed.sound.1 _ start
    (Layout.work_le_workBound _ _) filled
  exact ⟨d, pieces, gaps, same, laid⟩

/-- The output of an assembly is a linked image. -/
theorem Output.Assembled.linked {config : Config} {source : Source} {o : Output}
    (assembled : o.Assembled config source) : ∃ pieces, Linked config.wordBits o pieces := by
  obtain ⟨d, pieces, filled, same, laid⟩ := assembled.exists_laid
  refine ⟨pieces, ?_⟩
  rw [same]
  exact laid.linked assembled.parsed

/-- The output of an assembly is the linked image of its program. -/
theorem Assembly.output_linked {config : Config} {source : Source} {o : Output}
    (h : (Assembly.ofSource config source).output = some o) :
    ∃ pieces, Linked config.wordBits o pieces :=
  (assembled_of_output h).linked

/-- An operand and an array that refer to a string. -/
theorem Assembly.output_linked_string : ∃ o,
    (Assembly.ofSource .standard ⟨"text", "a = :x b = [:x 5] !done x: \"hi\""⟩).output = some o ∧
      o.words = #[502, 5, 503, 8, 66, 104, 105, 0, 5, 5] ∧ ∃ pieces, Linked 9 o pieces := by
  have words : ((Assembly.ofSource .standard
      ⟨"text", "a = :x b = [:x 5] !done x: \"hi\""⟩).output.map (·.words)) =
        some #[502, 5, 503, 8, 66, 104, 105, 0, 5, 5] := by
    decide +kernel
  obtain ⟨o, output, same⟩ := Option.map_eq_some_iff.1 words
  exact ⟨o, output, same, Assembly.output_linked output⟩

end NineBit.Asm

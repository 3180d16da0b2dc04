import Mathlib.Data.List.Basic
import NineBit.Proofs.Asm.Linked

/-!
# Addresses of statements

An image is a row of stretches: the code of a statement, the data of a constant, and the data of an
operand, which belongs to no statement (`Stretch`, `Program.stretches`). A statement stands where
its stretch starts (`Tiled.places`), so statements come by ascending address. A constant without
words ends where it starts, and if another constant follows it with nothing in between, both stand
at one address. Of the statements at one address only the last one is found there
(`mem_lastOnes_iff`). The address of a statement therefore leads back to the statement, unless a
stretch of the statement is hidden in this way (`Output.Leads`), and the two maps of addresses are
inverse to each other just when none is.
-/

namespace NineBit.Asm

/-! ## Stretches -/

/-- The statement to which a piece of data belongs. -/
def Owner.id? : Owner → Option Nat
  | .operand _ => none
  | .constant id => some id

/-- Neighbouring slots of an image that were laid together, and the statement they belong to. -/
structure Stretch where
  id? : Option Nat
  slots : List Slot

/-- The stretches of an image: a statement that is code has one, and so has a piece of data. -/
def Program.stretches (bits : Nat) (p : Program) (pieces : List Piece) : List Stretch :=
  (p.executable.map fun s => ⟨some s.id, s.slots bits⟩) ++
    pieces.map fun piece => ⟨piece.owner.id?, piece.literal.slots bits⟩

namespace Stretch

/-- The slots of some stretches. -/
def allSlots (l : List Stretch) : List Slot := l.flatMap slots

/-- Where the statements of some stretches stand, the first one of which starts at an address. -/
def places (address : Nat) : List Stretch → List Placement
  | [] => []
  | s :: rest =>
    (s.id?.map fun id => ⟨id, address⟩).toList ++ places (address + s.slots.length) rest

/-- The stretch of some statement starts here, with no slot before it. -/
def Meets (l : List Stretch) : Prop :=
  ∃ between next after, l = between ++ next :: after ∧ next.id?.isSome = true ∧
    allSlots between = []

/-- The stretch of a statement has no slots, and neither has any behind it up to the next one of
    a statement. -/
def Hides (l : List Stretch) (id : Nat) : Prop :=
  ∃ before s rest, l = before ++ s :: rest ∧ s.id? = some id ∧ s.slots = [] ∧ Meets rest

section
variable {s : Stretch} {l rest : List Stretch} {id address : Nat} {q : Placement}

theorem length_allSlots_cons :
    (allSlots (s :: rest)).length = s.slots.length + (allSlots rest).length :=
  List.length_append

theorem places_append (l rest : List Stretch) (address : Nat) : places address (l ++ rest) =
    places address l ++ places (address + (allSlots l).length) rest := by
  induction l generalizing address with
  | nil => rfl
  | cons s l ih =>
    rw [List.cons_append, places, places, ih, List.append_assoc, length_allSlots_cons,
      Nat.add_assoc]

/-- The stretch of no statement places nothing. -/
theorem places_cons_none (none : s.id? = none) :
    places address (s :: rest) = places (address + s.slots.length) rest := by
  rw [places, none]
  rfl

theorem places_cons_some (some : s.id? = some id) : places address (s :: rest) =
    ⟨id, address⟩ :: places (address + s.slots.length) rest := by
  rw [places, some]
  rfl

theorem le_of_mem_places (member : q ∈ places address l) : address ≤ q.address := by
  induction l generalizing address with
  | nil => exact absurd member List.not_mem_nil
  | cons s rest ih =>
    have later (inside : q ∈ places (address + s.slots.length) rest) : address ≤ q.address :=
      Nat.le_trans (Nat.le_add_right _ _) (ih inside)
    cases owner : s.id? with
    | none =>
      rw [places_cons_none owner] at member
      exact later member
    | some id =>
      rw [places_cons_some owner] at member
      rcases List.mem_cons.1 member with rfl | inside
      · exact Nat.le_refl _
      · exact later inside

theorem places_sorted (l : List Stretch) (address : Nat) :
    (places address l).Pairwise fun q r => q.address ≤ r.address := by
  induction l generalizing address with
  | nil => exact .nil
  | cons s rest ih =>
    cases owner : s.id? with
    | none =>
      rw [places_cons_none owner]
      exact ih _
    | some id =>
      rw [places_cons_some owner]
      refine .cons (fun r member => ?_) (ih _)
      exact Nat.le_trans (Nat.le_add_right _ _) (le_of_mem_places member)

/-! ## Statements at one address -/

theorem meets_cons : Meets (s :: rest) ↔ s.id?.isSome = true ∨ s.slots = [] ∧ Meets rest := by
  constructor
  · rintro ⟨between, next, after, same, some, empty⟩
    cases between with
    | nil =>
      cases same
      exact .inl some
    | cons first between =>
      obtain ⟨rfl, rfl⟩ := List.cons.inj same
      obtain ⟨none, empty⟩ := List.append_eq_nil_iff.1 empty
      exact .inr ⟨none, between, next, after, rfl, some, empty⟩
  · rintro (some | ⟨none, between, next, after, rfl, some, empty⟩)
    · exact ⟨[], s, rest, rfl, some, rfl⟩
    · exact ⟨s :: between, next, after, rfl, some, List.append_eq_nil_iff.2 ⟨none, empty⟩⟩

/-- Behind some slots nothing stands at the address before them. -/
theorem placed_behind_iff (n : Nat) :
    (∃ q ∈ places (address + n) rest, q.address = address) ↔
      n = 0 ∧ ∃ q ∈ places address rest, q.address = address := by
  constructor
  · rintro ⟨q, member, same⟩
    have behind := le_of_mem_places member
    have none : n = 0 := by omega
    subst none
    exact ⟨rfl, q, member, same⟩
  · rintro ⟨rfl, placed⟩
    exact placed

/-- A statement stands where the stretches start if they meet one there. -/
theorem meets_iff (address : Nat) : Meets l ↔ ∃ q ∈ places address l, q.address = address := by
  induction l generalizing address with
  | nil =>
    refine ⟨?_, ?_⟩
    · rintro ⟨between, next, after, same, -⟩
      exact absurd same (by simp)
    · rintro ⟨q, member, -⟩
      exact absurd member List.not_mem_nil
  | cons s rest ih =>
    rw [meets_cons, ih, ← List.length_eq_zero_iff, ← placed_behind_iff]
    cases owner : s.id? with
    | none =>
      rw [places_cons_none owner]
      exact or_iff_right Bool.false_ne_true
    | some id =>
      rw [places_cons_some owner]
      exact iff_of_true (.inl rfl) ⟨_, List.mem_cons_self, rfl⟩

theorem hides_cons : Hides (s :: rest) id ↔
    (s.id? = some id ∧ s.slots = [] ∧ Meets rest) ∨ Hides rest id := by
  constructor
  · rintro ⟨before, t, after, same, owner, none, meets⟩
    cases before with
    | nil =>
      cases same
      exact .inl ⟨owner, none, meets⟩
    | cons first before =>
      obtain ⟨rfl, rfl⟩ := List.cons.inj same
      exact .inr ⟨before, t, after, rfl, owner, none, meets⟩
  · rintro (⟨owner, none, meets⟩ | ⟨before, t, after, rfl, owner, none, meets⟩)
    · exact ⟨[], s, rest, rfl, owner, none, meets⟩
    · exact ⟨s :: before, t, after, rfl, owner, none, meets⟩

theorem hides_cons_none (none : s.id? = none) : Hides (s :: rest) id ↔ Hides rest id := by
  rw [hides_cons, none]
  exact or_iff_right fun here => absurd here.1 (by simp)

/-- What is hidden is placed. -/
theorem Hides.placed (hides : Hides l id) (address : Nat) :
    ∃ q ∈ places address l, q.id = id := by
  obtain ⟨before, s, rest, rfl, owner, -⟩ := hides
  rw [places_append, places_cons_some owner]
  exact ⟨_, List.mem_append_right _ List.mem_cons_self, rfl⟩

end

end Stretch

/-- A statement stands where another one is found: its stretch has no slots, and another statement
    follows with no slot in between. -/
def Program.Hidden (bits : Nat) (p : Program) (pieces : List Piece) (id : Nat) : Prop :=
  Stretch.Hides (p.stretches bits pieces) id

/-! ## The last statement at an address -/

/-- Of the placements at one address the last one. -/
def lastOnes : List Placement → List Placement
  | [] => []
  | q :: rest => if rest.any (·.address == q.address) then lastOnes rest else q :: lastOnes rest

section
variable {q : Placement} {l : List Placement}

theorem mem_of_mem_lastOnes (member : q ∈ lastOnes l) : q ∈ l := by
  induction l with
  | nil => exact member
  | cons r rest ih =>
    unfold lastOnes at member
    split at member
    · exact List.mem_cons_of_mem _ (ih member)
    · rcases List.mem_cons.1 member with rfl | inside
      · exact List.mem_cons_self
      · exact List.mem_cons_of_mem _ (ih inside)

theorem any_address_iff {address : Nat} :
    l.any (·.address == address) = true ↔ ∃ q ∈ l, q.address = address := by
  simp only [List.any_eq_true, beq_iff_eq]

/-- Another statement stands at the address of a stretch if the stretch has no slots and meets
    one. -/
theorem any_behind_iff {s : Stretch} {rest : List Stretch} {address : Nat} :
    (Stretch.places (address + s.slots.length) rest).any (·.address == address) = true ↔
      s.slots = [] ∧ Stretch.Meets rest := by
  rw [any_address_iff, Stretch.placed_behind_iff, List.length_eq_zero_iff,
    Stretch.meets_iff address]

/-- The last one at an address is what a search from the end finds. -/
theorem find?_reverse_iff {address : Nat} :
    (l.reverse.find? fun r => r.address == address) = some q ↔
      q ∈ lastOnes l ∧ q.address = address := by
  induction l with
  | nil => exact ⟨fun found => absurd found (by simp), fun found => absurd found.1 List.not_mem_nil⟩
  | cons r rest ih =>
    rw [List.reverse_cons, List.find?_append, lastOnes]
    by_cases here : r.address = address
    · subst here
      by_cases later : rest.any (·.address == r.address) = true
      · rw [if_pos later, ← ih]
        obtain ⟨t, member, same⟩ := any_address_iff.1 later
        have found : (rest.reverse.find? fun t => t.address == r.address).isSome = true :=
          List.find?_isSome.2 ⟨t, List.mem_reverse.2 member, beq_iff_eq.2 same⟩
        obtain ⟨last, found⟩ := Option.isSome_iff_exists.1 found
        rw [found, Option.some_or]
      · have none : (rest.reverse.find? fun t => t.address == r.address) = none := by
          refine List.find?_eq_none.2 fun t member same => later ?_
          exact any_address_iff.2 ⟨t, List.mem_reverse.1 member, beq_iff_eq.1 same⟩
        rw [if_neg later, none, Option.none_or, List.find?_singleton, if_pos (beq_self_eq_true _),
          Option.some_inj, List.mem_cons]
        constructor
        · rintro rfl
          exact ⟨.inl rfl, rfl⟩
        · rintro ⟨rfl | inside, same⟩
          · rfl
          · exact absurd (any_address_iff.2 ⟨q, mem_of_mem_lastOnes inside, same⟩) later
    · have other : ([r].find? fun t => t.address == address) = none := by
        rw [List.find?_singleton, if_neg (mt beq_iff_eq.1 here)]
      rw [other, Option.or_none, ih]
      split
      · exact Iff.rfl
      · rw [List.mem_cons]
        refine and_congr_left fun same => (or_iff_right ?_).symm
        rintro rfl
        exact here same

/-- Placements at one address are neighbours. -/
theorem address_next {next : Placement} {rest : List Placement}
    (sorted : (q :: next :: rest).Pairwise fun q r => q.address ≤ r.address)
    (later : (next :: rest).any (·.address == q.address) = true) : next.address = q.address := by
  obtain ⟨above, sorted⟩ := List.pairwise_cons.1 sorted
  obtain ⟨r, member, same⟩ := any_address_iff.1 later
  refine Nat.le_antisymm ?_ (above next List.mem_cons_self)
  rcases List.mem_cons.1 member with rfl | inside
  · exact Nat.le_of_eq same
  · exact same ▸ (List.pairwise_cons.1 sorted).1 r inside

/-- Placements by ascending address are left with one at each address. -/
theorem eraseDups_addresses (sorted : l.Pairwise fun q r => q.address ≤ r.address) :
    (l.map Placement.address).eraseDups = (lastOnes l).map Placement.address := by
  induction l with
  | nil => rfl
  | cons q rest ih =>
    have tail := ih (List.pairwise_cons.1 sorted).2
    rw [List.map_cons, List.eraseDups_cons, lastOnes]
    by_cases later : rest.any (·.address == q.address) = true
    · rw [if_pos later, ← tail]
      cases rest with
      | nil => cases later
      | cons next rest =>
        rw [List.map_cons, List.eraseDups_cons, address_next sorted later,
          List.filter_cons_of_neg (by simp)]
    · rw [if_neg later, List.map_cons, ← tail]
      have apart : (rest.map Placement.address).filter (fun a => !a == q.address) =
          rest.map Placement.address := by
        refine List.filter_eq_self.2 fun a member => ?_
        obtain ⟨r, inside, rfl⟩ := List.mem_map.1 member
        rw [Bool.not_eq_true', beq_eq_false_iff_ne]
        exact fun same => later (any_address_iff.2 ⟨r, inside, same⟩)
      rw [apart]

theorem lastOnes_ascending (sorted : l.Pairwise fun q r => q.address ≤ r.address) :
    (lastOnes l).Pairwise fun q r => q.address < r.address := by
  induction l with
  | nil => exact .nil
  | cons q rest ih =>
    obtain ⟨above, sorted⟩ := List.pairwise_cons.1 sorted
    unfold lastOnes
    split
    · exact ih sorted
    · rename_i later
      refine .cons (fun r member => ?_) (ih sorted)
      have inside := mem_of_mem_lastOnes member
      refine Nat.lt_of_le_of_ne (above r inside) fun same => later ?_
      exact any_address_iff.2 ⟨r, inside, same.symm⟩

end

/-- Of the statements of some stretches those that are not hidden are the last ones at their
    addresses. -/
theorem mem_lastOnes_iff {q : Placement} {l : List Stretch} {address : Nat}
    (once : ((Stretch.places address l).map Placement.id).Nodup) :
    q ∈ lastOnes (Stretch.places address l) ↔
      q ∈ Stretch.places address l ∧ ¬Stretch.Hides l q.id := by
  induction l generalizing address with
  | nil =>
    exact iff_of_false List.not_mem_nil fun found => absurd found.1 List.not_mem_nil
  | cons s rest ih =>
    cases owner : s.id? with
    | none =>
      rw [Stretch.places_cons_none owner] at once ⊢
      rw [ih once, Stretch.hides_cons_none owner]
    | some id =>
      rw [Stretch.places_cons_some owner] at once ⊢
      -- The statement placed here is dropped if one behind it has its address, and one behind it
      -- has another index, so that hiding it is up to what is behind.
      obtain ⟨fresh, once⟩ := List.nodup_cons.1 once
      have later := ih once
      have apart {r : Placement} (member : r ∈ Stretch.places (address + s.slots.length) rest) :
          r.id ≠ id := fun same => fresh (List.mem_map.2 ⟨r, member, same⟩)
      have shared := @any_behind_iff s rest address
      have hidden : Stretch.Hides (s :: rest) id ↔ s.slots = [] ∧ Stretch.Meets rest := by
        rw [Stretch.hides_cons, owner]
        constructor
        · rintro (⟨-, none, meets⟩ | hides)
          · exact ⟨none, meets⟩
          · obtain ⟨r, member, same⟩ := hides.placed (address + s.slots.length)
            exact absurd same (apart member)
        · rintro ⟨none, meets⟩
          exact .inl ⟨rfl, none, meets⟩
      have kept (member : q ∈ Stretch.places (address + s.slots.length) rest) :
          Stretch.Hides (s :: rest) q.id ↔ Stretch.Hides rest q.id := by
        rw [Stretch.hides_cons, owner]
        exact or_iff_right fun here => apart member (Option.some_inj.1 here.1).symm
      rw [lastOnes, List.mem_cons]
      by_cases last : (Stretch.places (address + s.slots.length) rest).any
        (·.address == address) = true
      · rw [if_pos last, later]
        constructor
        · rintro ⟨member, shown⟩
          exact ⟨.inr member, mt (kept member).1 shown⟩
        · rintro ⟨rfl | member, shown⟩
          · exact absurd (hidden.2 (shared.1 last)) shown
          · exact ⟨member, mt (kept member).2 shown⟩
      · rw [if_neg last, List.mem_cons, later]
        constructor
        · rintro (rfl | ⟨member, shown⟩)
          · exact ⟨.inl rfl, fun hides => last (shared.2 (hidden.1 hides))⟩
          · exact ⟨.inr member, mt (kept member).1 shown⟩
        · rintro ⟨rfl | member, shown⟩
          · exact .inl rfl
          · exact .inr ⟨member, mt (kept member).2 shown⟩

/-! ## Assembled images -/

/-- A linked image in which the statements stand where their stretches start, each of them once. -/
structure Tiled (bits : Nat) (o : Output) (pieces : List Piece) : Prop where
  linked : Linked bits o pieces
  places : o.placements.toList = Stretch.places 0 (o.program.stretches bits pieces)
  once : (o.placements.toList.map Placement.id).Nodup

section
variable {bits : Nat} {p : Program} {pieces : List Piece}

theorem allSlots_stretches (bits : Nat) (p : Program) (pieces : List Piece) :
    Stretch.allSlots (p.stretches bits pieces) = p.image bits pieces := by
  unfold Stretch.allSlots Program.stretches Program.image Program.code dataSlots
  rw [List.flatMap_append, List.flatMap_map, List.flatMap_map]

theorem places_code (statements : List Statement) (address : Nat) :
    Stretch.places address (statements.map fun s => ⟨some s.id, s.slots bits⟩) =
      Layout.placesFrom bits address statements := by
  induction statements generalizing address with
  | nil => rfl
  | cons s rest ih => exact congrArg (⟨s.id, address⟩ :: ·) (ih _)

theorem places_data {address : Nat} (row : Layout.Row bits address pieces) :
    Stretch.places address
      (pieces.map fun piece => ⟨piece.owner.id?, piece.literal.slots bits⟩) =
        pieces.filterMap Layout.placement? := by
  induction pieces generalizing address with
  | nil => rfl
  | cons piece rest ih =>
    obtain ⟨owner, place, literal⟩ := piece
    obtain ⟨here, row⟩ := row
    cases here
    cases owner with
    | operand slot => exact ih row
    | constant id => exact congrArg (⟨id, place⟩ :: ·) (ih row)

theorem Layout.Laid.tiled {d : Draft} {filled : List Gap} {limit : Int} (parsed : p.Parsed limit)
    (laid : Laid bits p d pieces filled []) : Tiled bits ⟨d.words, d.placements, p⟩ pieces where
  linked := laid.linked parsed
  places := by
    have code := @places_code bits p.executable 0
    have size : (Stretch.allSlots (p.executable.map fun s => ⟨some s.id, s.slots bits⟩)).length =
        (p.code bits).length := by
      unfold Stretch.allSlots Program.code
      rw [List.flatMap_map]
    show d.placements.toList = Stretch.places 0 (p.stretches bits pieces)
    unfold Program.stretches
    rw [Stretch.places_append, code, size, Nat.zero_add, places_data laid.row]
    exact laid.placements
  once := laid.placements_nodup parsed.sound.1

theorem Output.Assembled.tiled {config : Config} {source : Source} {o : Output}
    (assembled : o.Assembled config source) : ∃ pieces, Tiled config.wordBits o pieces := by
  obtain ⟨d, pieces, filled, same, laid⟩ := assembled.exists_laid
  refine ⟨pieces, ?_⟩
  rw [same]
  exact laid.tiled assembled.parsed

end

/-! ## The maps of addresses -/

namespace Output

variable {o : Output} {id address : Nat}

theorem mem_statementAddresses :
    (id, address) ∈ o.statementAddresses ↔ ⟨id, address⟩ ∈ o.placements.toList := by
  unfold statementAddresses
  rw [List.mem_mergeSort, List.mem_map]
  constructor
  · rintro ⟨q, member, same⟩
    cases same
    exact member
  · exact fun member => ⟨_, member, rfl⟩

/-- The map from addresses has the last statement at each address, by ascending address. -/
theorem addressStatements_eq
    (sorted : o.placements.toList.Pairwise fun q r => q.address ≤ r.address) :
    o.addressStatements = (lastOnes o.placements.toList).map fun q => (q.address, q.id) := by
  have order : (o.placements.toList.map Placement.address).mergeSort
      (fun x y => decide (x ≤ y)) = o.placements.toList.map Placement.address := by
    refine List.mergeSort_of_pairwise (List.pairwise_map.2 (sorted.imp ?_))
    exact fun below => decide_eq_true below
  unfold addressStatements
  dsimp only
  rw [order, eraseDups_addresses sorted, List.filterMap_map, ← List.filterMap_eq_map]
  refine List.filterMap_congr fun q member => ?_
  have found := find?_reverse_iff.2 ⟨member, rfl⟩
  show (o.statementAt? q.address).map _ = _
  unfold statementAt?
  rw [found]
  rfl

/-- The map of statements and that from addresses are inverse to each other. -/
def Inverse (o : Output) : Prop :=
  ∀ id address, (id, address) ∈ o.statementAddresses ↔ (address, id) ∈ o.addressStatements

/-- What the map from addresses says against the map of statements: each address has one statement,
    whose address it is, and a statement is missing just when its stretch is hidden. -/
structure Leads (o : Output) (hidden : Nat → Prop) : Prop where
  once : (o.statementAddresses.map Prod.fst).Nodup
  ascending : (o.addressStatements.map Prod.fst).Pairwise (· < ·)
  back : ∀ id address, (address, id) ∈ o.addressStatements ↔
    (id, address) ∈ o.statementAddresses ∧ ¬hidden id
  placed : ∀ id, hidden id → ∃ address, (id, address) ∈ o.statementAddresses

theorem Leads.inverse_iff {hidden : Nat → Prop} (leads : o.Leads hidden) :
    o.Inverse ↔ ∀ id, ¬hidden id := by
  constructor
  · intro inverse id hides
    obtain ⟨address, placed⟩ := leads.placed id hides
    exact ((leads.back id address).1 ((inverse id address).1 placed)).2 hides
  · intro shown id address
    rw [leads.back]
    exact (and_iff_left (shown id)).symm

end Output

section
variable {bits : Nat} {o : Output} {pieces : List Piece}

theorem Tiled.sorted (tiled : Tiled bits o pieces) :
    o.placements.toList.Pairwise fun q r => q.address ≤ r.address := by
  rw [tiled.places]
  exact Stretch.places_sorted _ _

theorem Tiled.leads (tiled : Tiled bits o pieces) :
    o.Leads (o.program.Hidden bits pieces) where
  once := by
    have pairs : ((o.placements.toList.map fun q => (q.id, q.address)).map Prod.fst).Nodup := by
      rw [List.map_map]
      exact tiled.once
    exact ((List.mergeSort_perm _ _).map Prod.fst).nodup_iff.2 pairs
  ascending := by
    rw [Output.addressStatements_eq tiled.sorted, List.map_map]
    exact List.pairwise_map.2 (lastOnes_ascending tiled.sorted)
  back id address := by
    have last : ⟨id, address⟩ ∈ lastOnes o.placements.toList ↔
        ⟨id, address⟩ ∈ o.placements.toList ∧ ¬o.program.Hidden bits pieces id := by
      have once := tiled.once
      rw [tiled.places] at once ⊢
      exact mem_lastOnes_iff once
    rw [Output.addressStatements_eq tiled.sorted, Output.mem_statementAddresses, ← last,
      List.mem_map]
    constructor
    · rintro ⟨q, member, same⟩
      cases same
      exact member
    · exact fun member => ⟨_, member, rfl⟩
  placed id hides := by
    obtain ⟨q, member, rfl⟩ := hides.placed 0
    exact ⟨q.address, Output.mem_statementAddresses.2 (tiled.places ▸ member)⟩

/-- Only the stretch of a constant without words is hidden. -/
theorem Tiled.hidden_empty (tiled : Tiled bits o pieces) {id : Nat}
    (hidden : o.program.Hidden bits pieces id) :
    ∃ literal, o.program.data? id = some literal ∧ literal.slots bits = [] := by
  obtain ⟨before, s, rest, same, owner, none, -⟩ := hidden
  have member : s ∈ o.program.stretches bits pieces := by
    rw [same]
    exact List.mem_append_right _ List.mem_cons_self
  rcases List.mem_append.1 member with code | data
  · obtain ⟨statement, executable, rfl⟩ := List.mem_map.1 code
    obtain ⟨opcode, found⟩ := Program.opcode_of_executable executable
    have some : statement.slots bits = .word opcode.word ::
        statement.operands.map (Literal.operand bits) := by
      unfold Statement.slots
      rw [found]
    exact absurd (some.symm.trans none) (List.cons_ne_nil _ _)
  · obtain ⟨⟨kind, address, literal⟩, inside, rfl⟩ := List.mem_map.1 data
    cases kind with
    | operand slot => cases owner
    | constant other =>
      cases owner
      exact ⟨literal, ((tiled.linked.constant _ _ _).1 inside).1, none⟩

end

/-- In the image of a source text the address of a statement leads back to the statement, unless the
    statement is a constant without words and another constant follows with no word in between. The
    two maps of addresses are inverse to each other just when there is no such constant. -/
theorem Assembly.addresses_inverse_iff {config : Config} {source : Source} {o : Output}
    (finished : (Assembly.ofSource config source).output = some o) :
    ∃ pieces, Linked config.wordBits o pieces ∧
      o.Leads (o.program.Hidden config.wordBits pieces) ∧
      (∀ id, o.program.Hidden config.wordBits pieces id →
        ∃ literal, o.program.data? id = some literal ∧ literal.slots config.wordBits = []) ∧
      (o.Inverse ↔ ∀ id, ¬o.program.Hidden config.wordBits pieces id) := by
  obtain ⟨pieces, tiled⟩ := (assembled_of_output finished).tiled
  exact ⟨pieces, tiled.linked, tiled.leads, fun _ => tiled.hidden_empty, tiled.leads.inverse_iff⟩

/-- An empty array and an array behind it: both have the address five, and only the second one is
    found there. -/
theorem Assembly.addresses_inverse_iff_shared : ∃ o,
    (Assembly.ofSource .standard ⟨"shared", "a = :x b = :y !done x: [] y: [5]"⟩).output = some o ∧
      (o.addressOfId? 3, o.addressOfId? 4, o.statementAt? 5) = (some 5, some 5, some 4) ∧
      ∃ pieces, Linked 9 o pieces ∧ o.Leads (o.program.Hidden 9 pieces) ∧
        (∀ id, o.program.Hidden 9 pieces id →
          ∃ literal, o.program.data? id = some literal ∧ literal.slots 9 = []) ∧
        (o.Inverse ↔ ∀ id, ¬o.program.Hidden 9 pieces id) := by
  have found : (Assembly.ofSource .standard
      ⟨"shared", "a = :x b = :y !done x: [] y: [5]"⟩).output.map
        (fun o => (o.addressOfId? 3, o.addressOfId? 4, o.statementAt? 5)) =
          some (some 5, some 5, some 4) := by
    decide +kernel
  obtain ⟨o, output, same⟩ := Option.map_eq_some_iff.1 found
  exact ⟨o, output, same, Assembly.addresses_inverse_iff output⟩

end NineBit.Asm

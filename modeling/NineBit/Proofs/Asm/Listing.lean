import Mathlib.Data.List.TakeWhile
import NineBit.Asm.Assembly
import NineBit.Proofs.Asm.Addresses

/-!
# Listings

A listing has a row for each address at which a statement is found, with the words from there up to
the next such address. It knows the starts of statements only, so that a row shows the words of its
statement and behind them the data of operands that was put down before the next statement
(`Stretch.listed`), and a constant without words at the address of another one has no row. Each
placed statement has a row, and each row the words of its statement, just when no operand has data
with words in it and there is no such constant (`Stretch.listed_eq_iff`).
-/

namespace NineBit.Asm

/-- An address, the statement there, and words from there on. -/
abbrev ListingRow := Nat × Nat × List Nat

/-- The row of a statement, for a number of words. -/
def Placement.row (words : Array Nat) (size : Nat → Nat) (q : Placement) : ListingRow :=
  (q.address, q.id, (words.extract q.address (q.address + size q.id)).toList)

/-- Rows that go from one placement to the next, the last one to the end of the words. -/
def between (words : Array Nat) : List Placement → List ListingRow
  | [] => []
  | q :: rest =>
    let stop := (rest.head?.map Placement.address).getD words.size
    (q.address, q.id, (words.extract q.address stop).toList) :: between words rest

theorem map_fst_between (words : Array Nat) (l : List Placement) :
    (between words l).map Prod.fst = l.map Placement.address := by
  induction l with
  | nil => rfl
  | cons q rest ih => exact congrArg (q.address :: ·) ih

/-- The rows of a listing go from each statement that is found to the next one. -/
theorem Output.rows_eq {o : Output}
    (sorted : o.placements.toList.Pairwise fun q r => q.address ≤ r.address) :
    o.rows = between o.words (lastOnes o.placements.toList) := by
  unfold rows
  rw [addressStatements_eq sorted]
  dsimp only
  induction lastOnes o.placements.toList with
  | nil => rfl
  | cons q rest ih =>
    cases rest with
    | nil => rfl
    | cons r rest =>
      exact congrArg ((q.address, q.id, (o.words.extract q.address r.address).toList) :: ·) ih

/-- The first of the placements that are found stands where the first one does. -/
theorem head?_lastOnes {l : List Placement}
    (sorted : l.Pairwise fun q r => q.address ≤ r.address) :
    (lastOnes l).head?.map Placement.address = l.head?.map Placement.address := by
  induction l with
  | nil => rfl
  | cons q rest ih =>
    unfold lastOnes
    split
    · rename_i later
      rw [ih (List.pairwise_cons.1 sorted).2]
      cases rest with
      | nil => cases later
      | cons next rest => exact congrArg some (address_next sorted later)
    · rfl

namespace Stretch

/-- The slots up to the next stretch of a statement. -/
def loose (l : List Stretch) : List Slot := allSlots (l.takeWhile fun s => s.id?.isNone)

/-- The row of a statement goes up to the next stretch of a statement. Of the statements at one
    address only the last one has a row. -/
def listed (words : Array Nat) (address : Nat) : List Stretch → List ListingRow
  | [] => []
  | s :: rest =>
    let behind := address + s.slots.length
    let later := listed words behind rest
    match s.id? with
    | none => later
    | some id =>
      if (places behind rest).any (·.address == address) then later
      else (address, id, (words.extract address (behind + (loose rest).length)).toList) :: later

section
variable {words : Array Nat} {address id : Nat} {s : Stretch} {l rest : List Stretch}

theorem loose_cons_none (none : s.id? = none) : loose (s :: rest) = s.slots ++ loose rest := by
  unfold loose
  rw [List.takeWhile_cons_of_pos (by rw [none]; rfl)]
  rfl

theorem loose_cons_some (some : s.id? = some id) : loose (s :: rest) = [] := by
  unfold loose
  rw [List.takeWhile_cons_of_neg (by rw [some]; exact Bool.false_ne_true)]
  rfl

theorem loose_le (l : List Stretch) : (loose l).length ≤ (allSlots l).length := by
  have split : loose l ++ allSlots (l.dropWhile fun s => s.id?.isNone) = allSlots l := by
    unfold loose allSlots
    rw [← List.flatMap_append, List.takeWhile_append_dropWhile]
  rw [← split, List.length_append]
  exact Nat.le_add_right _ _

/-- The next statement stands behind the slots of none, or there is none. -/
theorem head?_places (total : address + (allSlots l).length = words.size) :
    ((places address l).head?.map Placement.address).getD words.size =
      address + (loose l).length := by
  induction l generalizing address with
  | nil => exact total.symm
  | cons s rest ih =>
    rw [length_allSlots_cons] at total
    cases owner : s.id? with
    | none =>
      rw [places_cons_none owner, loose_cons_none owner, ih (by omega), List.length_append]
      omega
    | some id =>
      rw [places_cons_some owner, loose_cons_some owner]
      rfl

theorem listed_cons_none (none : s.id? = none) :
    listed words address (s :: rest) = listed words (address + s.slots.length) rest := by
  rw [listed, none]

theorem listed_cons_some (some : s.id? = some id) : listed words address (s :: rest) =
    if (places (address + s.slots.length) rest).any (·.address == address) then
      listed words (address + s.slots.length) rest
    else
      (address, id,
        (words.extract address (address + s.slots.length + (loose rest).length)).toList) ::
          listed words (address + s.slots.length) rest := by
  rw [listed, some]

/-- Rows between the statements that are found are those of the stretches. -/
theorem between_places (total : address + (allSlots l).length = words.size) :
    between words (lastOnes (places address l)) = listed words address l := by
  induction l generalizing address with
  | nil => rfl
  | cons s rest ih =>
    rw [length_allSlots_cons, ← Nat.add_assoc] at total
    cases owner : s.id? with
    | none => rw [places_cons_none owner, listed_cons_none owner, ih total]
    | some id =>
      rw [places_cons_some owner, listed_cons_some owner, lastOnes]
      split
      · exact ih total
      · -- The row ends where the next statement that is found stands, be others hidden there.
        rw [between]
        dsimp only
        rw [head?_lastOnes (places_sorted _ _), head?_places total, ih total]

theorem length_listed_le (l : List Stretch) (address : Nat) :
    (listed words address l).length ≤ (places address l).length := by
  induction l generalizing address with
  | nil => exact Nat.le_refl _
  | cons s rest ih =>
    have later := ih (address + s.slots.length)
    cases owner : s.id? with
    | none =>
      rw [listed_cons_none owner, places_cons_none owner]
      exact later
    | some id =>
      rw [listed_cons_some owner, places_cons_some owner]
      split
      · exact Nat.le_succ_of_le later
      · exact Nat.succ_le_succ later

/-- Words from one place on are told by where they end. -/
theorem extract_eq_iff {first second : Nat} (le : first ≤ words.size) (le' : second ≤ words.size)
    (above : address ≤ first) (above' : address ≤ second) :
    (words.extract address first).toList = (words.extract address second).toList ↔
      first = second := by
  refine ⟨fun same => ?_, fun same => by rw [same]⟩
  have lengths := congrArg List.length same
  rw [Array.length_toList, Array.length_toList, Array.size_extract, Array.size_extract] at lengths
  omega

/-- Behind a statement no stretch of none has slots. -/
def Tight (l : List Stretch) : Prop :=
  ∀ s ∈ l.dropWhile fun s => s.id?.isNone, s.id? = none → s.slots = []

theorem tight_cons_none (none : s.id? = none) : Tight (s :: rest) ↔ Tight rest := by
  unfold Tight
  rw [List.dropWhile_cons_of_pos (by rw [none]; rfl)]

theorem tight_cons_some (some : s.id? = some id) :
    Tight (s :: rest) ↔ loose rest = [] ∧ Tight rest := by
  unfold Tight loose allSlots
  rw [List.dropWhile_cons_of_neg (by rw [some]; exact Bool.false_ne_true),
    List.flatMap_eq_nil_iff, List.forall_mem_cons]
  constructor
  · rintro ⟨-, all⟩
    refine ⟨fun t member => ?_, fun t member => all t ((List.dropWhile_sublist _).subset member)⟩
    refine all t ((List.takeWhile_sublist _).subset member) ?_
    exact Option.isNone_iff_eq_none.1
      (List.mem_takeWhile_imp (p := fun s : Stretch => s.id?.isNone) member)
  · rintro ⟨front, back⟩
    refine ⟨fun none => absurd (some.symm.trans none) (by simp), fun t member none => ?_⟩
    rw [← List.takeWhile_append_dropWhile (p := fun s : Stretch => s.id?.isNone) (l := rest)]
      at member
    rcases List.mem_append.1 member with early | late
    · exact front t early
    · exact back t late none

/-- Every placed statement has a row with its own words just when no slots of none are behind a
    statement, and no stretch is hidden. -/
theorem listed_eq_iff {size : Nat → Nat}
    (own : ∀ s ∈ l, ∀ id, s.id? = some id → size id = s.slots.length)
    (total : address + (allSlots l).length = words.size) :
    listed words address l = (places address l).map (Placement.row words size) ↔
      Tight l ∧ ∀ id, ¬Hides l id := by
  induction l generalizing address with
  | nil =>
    refine iff_of_true rfl ⟨fun s member => absurd member List.not_mem_nil, fun id hides => ?_⟩
    obtain ⟨q, member, -⟩ := hides.placed 0
    exact absurd member List.not_mem_nil
  | cons s rest ih =>
    rw [length_allSlots_cons, ← Nat.add_assoc] at total
    have later := ih (fun t member => own t (List.mem_cons_of_mem _ member)) total
    cases owner : s.id? with
    | none =>
      rw [listed_cons_none owner, places_cons_none owner, tight_cons_none owner, later]
      simp only [hides_cons_none owner]
    | some id =>
      have mine := own s List.mem_cons_self id owner
      have inside := loose_le rest
      rw [listed_cons_some owner, places_cons_some owner, tight_cons_some owner, List.map_cons]
      split
      · -- The row is missing, so that there are too few of them.
        rename_i shared
        refine iff_of_false (fun same => ?_) fun found => ?_
        · have lengths := congrArg List.length same
          have few := @length_listed_le words rest (address + s.slots.length)
          rw [List.length_cons, List.length_map] at lengths
          omega
        · obtain ⟨none, meets⟩ := any_behind_iff.1 shared
          exact found.2 id (hides_cons.2 (.inl ⟨owner, none, meets⟩))
      · rename_i alone
        have hidden (other : Nat) : Hides (s :: rest) other ↔ Hides rest other := by
          rw [hides_cons]
          exact or_iff_right fun here => alone (any_behind_iff.2 here.2)
        have whole : (address, id, (words.extract address
            (address + s.slots.length + (loose rest).length)).toList) =
              Placement.row words size ⟨id, address⟩ ↔ loose rest = [] := by
          unfold Placement.row
          dsimp only
          rw [Prod.mk.injEq, Prod.mk.injEq, and_iff_right rfl, and_iff_right rfl, mine,
            extract_eq_iff (by omega) (by omega) (by omega) (by omega),
            ← List.length_eq_zero_iff]
          omega
        rw [List.cons_eq_cons, whole, later, and_assoc]
        simp only [hidden]

end

end Stretch

/-! ## The listing of an image -/

/-- The slots that a statement has of its own: those of its data, or those of its code. -/
def Program.ownSlots (bits : Nat) (p : Program) (id : Nat) : List Slot :=
  match p.data? id, p.statements[id]? with
  | some literal, _ => literal.slots bits
  | none, some s => s.slots bits
  | none, none => []

/-- A row for each placed statement, with the words of the statement. -/
def Output.statementRows (bits : Nat) (o : Output) : List ListingRow :=
  o.placements.toList.map (Placement.row o.words fun id => (o.program.ownSlots bits id).length)

/-- No operand has data with words in it. -/
def Bare (bits : Nat) (pieces : List Piece) : Prop :=
  ∀ piece ∈ pieces, piece.owner.id? = none → piece.literal.slots bits = []

section
variable {bits : Nat} {o : Output} {pieces : List Piece}

theorem Program.ownSlots_of_data {p : Program} {id : Nat} {literal : Literal}
    (data : p.data? id = some literal) : p.ownSlots bits id = literal.slots bits := by
  unfold ownSlots
  rw [data]

theorem Program.ownSlots_of_executable {p : Program}
    (ids : ∀ (i : Nat) (h : i < p.statements.size), p.statements[i].id = i) {s : Statement}
    (member : s ∈ p.executable) : p.ownSlots bits s.id = s.slots bits := by
  obtain ⟨inside, -⟩ := List.mem_filter.1 member
  obtain ⟨i, lt, same⟩ := Array.getElem_of_mem (Array.mem_toList_iff.1 inside)
  have mine : s.id = i := by
    rw [← same]
    exact ids i lt
  have found : p.statements[s.id]? = some s := by
    rw [mine, Array.getElem?_eq_getElem lt, same]
  unfold ownSlots
  rw [Layout.executable_data? ids member, found]

/-- The stretch of a statement has the statement's own slots. -/
theorem Tiled.ownSlots (tiled : Tiled bits o pieces)
    (ids : ∀ (i : Nat) (h : i < o.program.statements.size), o.program.statements[i].id = i)
    {s : Stretch} (member : s ∈ o.program.stretches bits pieces) {id : Nat}
    (owner : s.id? = some id) : o.program.ownSlots bits id = s.slots := by
  rcases List.mem_append.1 member with code | data
  · obtain ⟨statement, executable, rfl⟩ := List.mem_map.1 code
    cases owner
    exact Program.ownSlots_of_executable ids executable
  · obtain ⟨⟨kind, address, literal⟩, inside, rfl⟩ := List.mem_map.1 data
    cases kind with
    | operand slot => cases owner
    | constant other =>
      cases owner
      exact Program.ownSlots_of_data ((tiled.linked.constant _ _ _).1 inside).1

/-- The stretches of no statement are those of the data of operands, and stand behind the code. -/
theorem Tiled.tight_iff (tiled : Tiled bits o pieces) :
    Stretch.Tight (o.program.stretches bits pieces) ↔ Bare bits pieces := by
  constructor
  · rintro tight ⟨kind, word, literal⟩ member unowned
    cases kind with
    | constant id => cases unowned
    | operand address =>
      obtain ⟨found, -⟩ := tiled.linked.operand _ _ _ member
      have listed : (⟨none, literal.slots bits⟩ : Stretch) ∈ o.program.stretches bits pieces :=
        List.mem_append_right _ (List.mem_map.2 ⟨_, member, rfl⟩)
      have started : (o.program.stretches bits pieces).dropWhile (fun s => s.id?.isNone) =
          o.program.stretches bits pieces := by
        unfold Program.stretches
        unfold Program.code at found
        cases code : o.program.executable with
        | nil =>
          rw [code] at found
          cases found
        | cons s rest => rfl
      unfold Stretch.Tight at tight
      rw [started] at tight
      exact tight _ listed rfl
  · intro bare s member none
    rcases List.mem_append.1 ((List.dropWhile_sublist _).subset member) with code | data
    · obtain ⟨statement, -, rfl⟩ := List.mem_map.1 code
      cases none
    · obtain ⟨piece, inside, rfl⟩ := List.mem_map.1 data
      exact bare piece inside none

/-- The stretches fill the image. -/
theorem Tiled.total (tiled : Tiled bits o pieces) :
    0 + (Stretch.allSlots (o.program.stretches bits pieces)).length = o.words.size := by
  rw [Nat.zero_add, allSlots_stretches, tiled.linked.size]

theorem Tiled.rows_eq (tiled : Tiled bits o pieces) :
    o.rows = Stretch.listed o.words 0 (o.program.stretches bits pieces) := by
  rw [Output.rows_eq tiled.sorted, tiled.places, Stretch.between_places tiled.total]

theorem Tiled.rows_ascending (tiled : Tiled bits o pieces) :
    (o.rows.map Prod.fst).Pairwise (· < ·) := by
  rw [Output.rows_eq tiled.sorted, map_fst_between]
  exact List.pairwise_map.2 (lastOnes_ascending tiled.sorted)

theorem Tiled.rows_eq_iff (tiled : Tiled bits o pieces)
    (ids : ∀ (i : Nat) (h : i < o.program.statements.size), o.program.statements[i].id = i) :
    o.rows = o.statementRows bits ↔
      Bare bits pieces ∧ ∀ id, ¬o.program.Hidden bits pieces id := by
  have own : ∀ s ∈ o.program.stretches bits pieces, ∀ id, s.id? = some id →
      (o.program.ownSlots bits id).length = s.slots.length :=
    fun s member id owner => congrArg List.length (tiled.ownSlots ids member owner)
  unfold Output.statementRows
  rw [tiled.rows_eq, tiled.places, ← tiled.tight_iff]
  exact Stretch.listed_eq_iff own tiled.total

end

/-- The rows of a listing of a source text's image: that of a statement goes on over the data of
    operands behind it, and a constant without words has none if another one follows with no word in
    between. They attribute to each statement its own words just when neither happens. -/
theorem Assembly.rows_attribute_iff {config : Config} {source : Source} {o : Output}
    (finished : (Assembly.ofSource config source).output = some o) :
    ∃ pieces, Linked config.wordBits o pieces ∧ (o.rows.map Prod.fst).Pairwise (· < ·) ∧
      o.rows = Stretch.listed o.words 0 (o.program.stretches config.wordBits pieces) ∧
      (o.rows = o.statementRows config.wordBits ↔
        Bare config.wordBits pieces ∧ ∀ id, ¬o.program.Hidden config.wordBits pieces id) := by
  have assembled := assembled_of_output finished
  obtain ⟨pieces, tiled⟩ := assembled.tiled
  exact ⟨pieces, tiled.linked, tiled.rows_ascending, tiled.rows_eq,
    tiled.rows_eq_iff assembled.parsed.sound.1⟩

/-- The row of the last instruction goes on over a string and an array, and an empty array has no
    row. -/
theorem Assembly.rows_attribute_iff_inline : ∃ o,
    (Assembly.ofSource .standard
      ⟨"inline", "a = \"hi\" b = [:x :y] !done x: [] y: [5]"⟩).output = some o ∧
      o.rows = [(0, 0, [502, 5]), (2, 1, [503, 8]), (4, 2, [66, 104, 105, 0, 10, 10]),
        (10, 4, [5])] ∧
      o.statementRows 9 = [(0, 0, [502, 5]), (2, 1, [503, 8]), (4, 2, [66]), (10, 3, []),
        (10, 4, [5])] ∧
      ∃ pieces, Linked 9 o pieces ∧ (o.rows.map Prod.fst).Pairwise (· < ·) ∧
        o.rows = Stretch.listed o.words 0 (o.program.stretches 9 pieces) ∧
        (o.rows = o.statementRows 9 ↔ Bare 9 pieces ∧ ∀ id, ¬o.program.Hidden 9 pieces id) := by
  have found : (Assembly.ofSource .standard
      ⟨"inline", "a = \"hi\" b = [:x :y] !done x: [] y: [5]"⟩).output.map
        (fun o => (o.words, o.placements)) =
      some (#[502, 5, 503, 8, 66, 104, 105, 0, 10, 10, 5],
        #[⟨0, 0⟩, ⟨1, 2⟩, ⟨2, 4⟩, ⟨3, 10⟩, ⟨4, 10⟩]) := by
    decide +kernel
  have own : (Assembly.ofSource .standard
      ⟨"inline", "a = \"hi\" b = [:x :y] !done x: [] y: [5]"⟩).output.map
        (Output.statementRows 9) =
      some [(0, 0, [502, 5]), (2, 1, [503, 8]), (4, 2, [66]), (10, 3, []), (10, 4, [5])] := by
    decide +kernel
  obtain ⟨o, output, same⟩ := Option.map_eq_some_iff.1 found
  obtain ⟨words, placements⟩ := Prod.mk.inj same
  rw [output] at own
  refine ⟨o, output, ?_, Option.some_inj.1 own, Assembly.rows_attribute_iff output⟩
  rw [Output.rows_eq (by rw [placements]; decide), words, placements]
  rfl

end NineBit.Asm

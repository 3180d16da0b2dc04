import NineBit.Proofs.Asm.Limits

/-!
# Computations on a host

A run on a host is the run anywhere, as long as the host meets the demands that it makes, and it
breaks off at the first one that the host does not meet, with what has been reported before
(`Report.runsOn`). What can break it are therefore the kinds of demands that a computation makes
(`Report.Asks`). Some are refused for their size only (`Demand.Sized`): nesting, a length, room and
the digits of a numeral end such a computation, and nothing else does.
-/

namespace NineBit

/-- A demand that is refused for its size only. The first character of a text that has one is never
    refused. -/
inductive Demand.Sized : Demand → Prop where
  | nesting (levels : Nat) : Sized (.nesting levels)
  | sequence (length : Nat) : Sized (.sequence length)
  | growth (length : Nat) : Sized (.growth length)
  | numeral (digits : Nat) : Sized (.numeral digits)
  | character {text : String} (some : text ≠ "") : Sized (.character text 0)

/-- A host ends a computation for a lack of nesting, of a length or of room, or for a numeral with
    more digits than it reads. -/
inductive Crash.Lacks (host : Host) : Crash → Prop where
  | nesting : Lacks host (.nesting host.wording)
  | length : Lacks host .length
  | room : Lacks host .room
  | numeral {digits : Nat} (more : host.digits < digits) :
      Lacks host (.numeral host.digits digits)

namespace Host

variable {host : Host} {d : Demand} {crash : Crash}

/-- The first character of a text is there. -/
theorem refusal_character {text : String} (some : text ≠ "") :
    host.refusal (.character text 0) = none := by
  have pos : 0 < text.length := by
    rw [← String.length_toList, List.length_pos_iff]
    exact fun empty => some (String.toList_eq_nil_iff.1 empty)
  exact if_pos pos

/-- A length is always read. -/
theorem lengths_read (host : Host) : 19 ≤ host.digits := by
  refine Nat.le_of_not_lt fun fewer => ?_
  have count : decimalCount host.digits ≤ decimalCount 18 :=
    Nat.pow_le_pow_right (by decide) (by omega)
  exact absurd (Nat.lt_of_lt_of_le host.longest_lt count) (by decide)

theorem refusal_nesting {levels : Nat} (le : levels ≤ host.nesting) :
    host.refusal (.nesting levels) = none := if_pos le

theorem lacks_of_sized (sized : d.Sized) (refused : host.refusal d = some crash) :
    crash.Lacks host := by
  cases sized with
  | nesting levels =>
    unfold refusal at refused
    dsimp only at refused
    split at refused
    · cases refused
    · cases refused
      exact .nesting
  | sequence length =>
    unfold refusal at refused
    dsimp only at refused
    split at refused
    · cases refused
      exact .length
    · split at refused
      · cases refused
        exact .room
      · cases refused
  | growth length =>
    unfold refusal at refused
    dsimp only at refused
    split at refused
    · cases refused
      exact .room
    · cases refused
  | numeral digits =>
    unfold refusal at refused
    dsimp only at refused
    split at refused
    · cases refused
    · rename_i more
      cases refused
      exact .numeral (Nat.lt_of_not_le more)
  | character some =>
    rw [refusal_character some] at refused
    cases refused

/-! ## Numbers -/

/-- The host writes all of these numbers. -/
def Writes (host : Host) (numbers : List Int) : Prop :=
  ∀ n ∈ numbers, n.natAbs < decimalCount host.digits

instance (host : Host) (numbers : List Int) : Decidable (host.Writes numbers) :=
  inferInstanceAs (Decidable (∀ n ∈ numbers, n.natAbs < decimalCount host.digits))

theorem meet_decimal (host : Host) (n : Int) :
    host.meet (.decimal n) =
      if n.natAbs < decimalCount host.digits then .ok () else .error (.digits host.digits) := by
  unfold meet refusal
  by_cases written : n.natAbs < decimalCount host.digits
  · simp only [if_pos written]
  · simp only [if_neg written]

theorem meetAll_cons (host : Host) (d : Demand) (rest : List Demand) :
    host.meetAll (d :: rest) = host.meet d >>= fun _ => host.meetAll rest := rfl

/-- A numeral ends a computation if it has too many digits. -/
theorem meetAll_numeral (host : Host) (digits : Nat) :
    host.meetAll [.numeral digits] =
      if digits ≤ host.digits then .ok () else .error (.numeral host.digits digits) := by
  rw [meetAll_cons]
  unfold meet refusal
  by_cases read : digits ≤ host.digits
  · simp only [if_pos read]
    rfl
  · simp only [if_neg read]
    rfl

theorem writes_nil : host.Writes [] := fun _ member => absurd member List.not_mem_nil

theorem writes_cons {n : Int} {rest : List Int} :
    host.Writes (n :: rest) ↔ n.natAbs < decimalCount host.digits ∧ host.Writes rest :=
  List.forall_mem_cons

/-- The first number that is not written ends a computation. -/
theorem meetAll_decimal (host : Host) (numbers : List Int) :
    host.meetAll (numbers.map .decimal) =
      if host.Writes numbers then .ok () else .error (.digits host.digits) := by
  induction numbers with
  | nil =>
    rw [if_pos writes_nil]
    rfl
  | cons n rest ih =>
    rw [List.map_cons, meetAll_cons, meet_decimal, ih]
    by_cases first : n.natAbs < decimalCount host.digits
    · by_cases later : host.Writes rest
      · rw [if_pos first, if_pos later, if_pos (writes_cons.2 ⟨first, later⟩)]
        rfl
      · rw [if_pos first, if_neg later, if_neg fun whole => later (writes_cons.1 whole).2]
        rfl
    · rw [if_neg first, if_neg fun whole => first (writes_cons.1 whole).1]
      rfl

end Host

namespace Report

variable {α β : Type} {host : Host} {limit : Int} {r : Report α} {P : Demand → Prop}

/-! ## Running on a host -/

theorem runOn_refused {d : Demand} {crash : Crash} (refused : host.refusal d = some crash)
    (next : Unit → Report α) (log : Log) :
    (enter (.demand d) next).runOn host limit log = .error (crash, log) := by
  rw [runOn, refused]

theorem runOn_met {d : Demand} (met : host.refusal d = none) (next : Unit → Report α)
    (log : Log) : (enter (.demand d) next).runOn host limit log =
      (next ()).runOn host limit log := by
  rw [runOn, met]

/-- An entry that is no demand is made on every host. -/
theorem runOn_entry {entry : Entry} (other : ∀ d, entry ≠ .demand d) (next : Unit → Report α)
    (log : Log) : (enter entry next).runOn host limit log =
      if (log.add entry).stopsAt limit entry then .ok (none, log.add entry)
      else (next ()).runOn host limit (log.add entry) := by
  cases entry with
  | demand d => exact absurd rfl (other d)
  | _ => rfl

/-- The demands that a run makes, up to the problem that fills the log. -/
def asked (limit : Int) : Report α → Log → List Demand
  | done _, _ => []
  | enter entry next, log =>
    match entry with
    | .demand d => d :: (next ()).asked limit log
    | entry =>
      let log := log.add entry
      if log.stopsAt limit entry then [] else (next ()).asked limit log

/-- How a run on a host ends: as it does anywhere, or at the first demand that is not met. -/
inductive RunsOn (host : Host) (limit : Int) (r : Report α) (log : Log) :
    Except (Crash × Log) (Option α × Log) → Prop where
  | ends (met : ∀ d ∈ r.asked limit log, host.refusal d = none) :
      RunsOn host limit r log (.ok (r.run limit log))
  | breaks {before after : List Demand} {d : Demand} {crash : Crash} {last : Log}
      (asked : r.asked limit log = before ++ d :: after)
      (met : ∀ d ∈ before, host.refusal d = none) (refused : host.refusal d = some crash)
      (begins : last.Begins (r.run limit log).2) : RunsOn host limit r log (.error (crash, last))

theorem runsOn (host : Host) (limit : Int) (r : Report α) (log : Log) :
    RunsOn host limit r log (r.runOn host limit log) := by
  induction r generalizing log with
  | done value => exact .ends fun _ member => absurd member List.not_mem_nil
  | enter entry next ih =>
    have made (other : ∀ d, entry ≠ .demand d)
        (runs : RunsOn host limit (next ()) (log.add entry)
          ((next ()).runOn host limit (log.add entry))) :
        RunsOn host limit (enter entry next) log ((enter entry next).runOn host limit log) := by
      have asked : (enter entry next).asked limit log =
          if (log.add entry).stopsAt limit entry then []
          else (next ()).asked limit (log.add entry) := by
        cases entry with
        | demand d => exact absurd rfl (other d)
        | _ => rfl
      have whole : (enter entry next).run limit log =
          if (log.add entry).stopsAt limit entry then (none, log.add entry)
          else (next ()).run limit (log.add entry) := rfl
      rw [runOn_entry other]
      by_cases stops : (log.add entry).stopsAt limit entry = true
      · rw [if_pos stops] at asked whole ⊢
        rw [← whole]
        refine .ends fun d member => ?_
        rw [asked] at member
        exact absurd member List.not_mem_nil
      · rw [if_neg stops] at asked whole ⊢
        generalize (next ()).runOn host limit (log.add entry) = outcome at runs ⊢
        cases runs with
        | ends met =>
          rw [← whole]
          exact .ends (asked ▸ met)
        | breaks first met refused begins =>
          exact .breaks (asked.trans first) met refused (whole ▸ begins)
    cases entry with
    | demand d =>
      have runs := ih () log
      cases refused : host.refusal d with
      | some crash =>
        have asked : (enter (.demand d) next).asked limit log =
            [] ++ d :: (next ()).asked limit log := rfl
        rw [runOn_refused refused]
        exact .breaks asked (fun _ member => absurd member List.not_mem_nil) refused
          (begins_run limit _ log)
      | none =>
        rw [runOn_met refused]
        generalize (next ()).runOn host limit log = outcome at runs ⊢
        cases runs with
        | ends met => exact .ends (List.forall_mem_cons.2 ⟨refused, met⟩)
        | @breaks before after other _ _ asked met refused' begins =>
          have whole : (enter (.demand d) next).asked limit log = (d :: before) ++ other :: after :=
            congrArg (d :: ·) asked
          exact .breaks whole (List.forall_mem_cons.2 ⟨refused, met⟩) refused' begins
    | _ => exact made nofun (ih () _)

/-! ## Demands of a kind -/

/-- All demands of a computation are of a kind. -/
def Asks (P : Demand → Prop) (r : Report α) : Prop := ∀ d ∈ r.demands, P d

theorem mem_demands {d : Demand} : d ∈ r.demands ↔ Entry.demand d ∈ r.entries := by
  unfold demands
  rw [List.mem_filterMap]
  constructor
  · rintro ⟨entry, member, same⟩
    cases entry <;> cases same
    exact member
  · exact fun member => ⟨_, member, rfl⟩

theorem demands_of_asked {d : Demand} : ∀ {log : Log}, d ∈ r.asked limit log → d ∈ r.demands := by
  induction r with
  | done value => exact fun none => absurd none List.not_mem_nil
  | enter entry next ih =>
    intro log member
    rw [mem_demands]
    have later {log : Log} (member : d ∈ (next ()).asked limit log) :
        Entry.demand d ∈ (enter entry next).entries :=
      List.mem_cons_of_mem _ (mem_demands.1 (ih () member))
    cases entry with
    | demand first =>
      rcases List.mem_cons.1 member with rfl | other
      · exact List.mem_cons_self
      · exact later other
    | _ =>
      unfold asked at member
      dsimp only at member
      split at member
      · exact absurd member List.not_mem_nil
      · exact later member

namespace Asks

theorem mono {Q : Demand → Prop} (asks : r.Asks P) (imp : ∀ d, P d → Q d) : r.Asks Q :=
  fun d member => imp d (asks d member)

theorem done (value : α) : (Report.done value).Asks P := fun _ none => absurd none List.not_mem_nil

theorem tell {entry : Entry} (other : ∀ d, entry ≠ .demand d) : (Report.tell entry).Asks P := by
  intro d member
  exact absurd (List.mem_singleton.1 (mem_demands.1 member)).symm (other d)

theorem ask {d : Demand} (holds : P d) : (Report.ask d).Asks P := by
  intro other member
  cases List.mem_singleton.1 (mem_demands.1 member)
  exact holds

theorem bind {f : α → Report β} (first : r.Asks P) (rest : (f r.value).Asks P) :
    (r >>= f).Asks P := by
  intro d member
  rw [mem_demands, entries_bind, List.mem_append] at member
  exact member.elim (fun here => first d (mem_demands.2 here))
    fun there => rest d (mem_demands.2 there)

/-- Inside another computation the first demand is one level of nesting, and all others have one
    more. -/
theorem nested {r : Unit → Report α} {Q : Demand → Prop} (inner : (r ()).Asks Q)
    (first : P (.nesting 1)) (deeper : ∀ levels, Q (.nesting levels) → P (.nesting (levels + 1)))
    (others : ∀ d, (∀ levels, d ≠ .nesting levels) → Q d → P d) : (Report.nested r).Asks P := by
  intro d member
  rw [mem_demands, entries_nested, List.mem_cons] at member
  rcases member with same | member
  · cases same
    exact first
  · obtain ⟨entry, inside, same⟩ := List.mem_map.1 member
    cases entry with
    | demand other =>
      have holds := inner other (mem_demands.2 inside)
      cases other with
      | nesting levels =>
        cases same
        exact deeper levels holds
      | _ =>
        cases same
        exact others _ nofun holds
    | _ => cases same

end Asks

/-- A computation all of whose demands a host meets runs there as it does anywhere. -/
theorem runOn_eq_run (met : r.Asks fun d => host.refusal d = none) (log : Log) :
    r.runOn host limit log = .ok (r.run limit log) := by
  have runs := runsOn host limit r log
  generalize r.runOn host limit log = outcome at runs
  cases runs with
  | ends => rfl
  | @breaks before _ d _ _ asked _ refused =>
    have member : d ∈ r.asked limit log := by
      rw [asked]
      exact List.mem_append_right _ List.mem_cons_self
    rw [met d (demands_of_asked member)] at refused
    cases refused

end Report

end NineBit

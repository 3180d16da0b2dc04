import Mathlib.Data.List.Basic
import Mathlib.Data.List.Induction
import NineBit.Asm.Resolution

/-!
# What comes of the references

Labels are looked up by their keys, and no two labels share one (`Label.key_injective`). The lookup
through the blocks around a reference, all at once, is `Reference.resolve?`; it gives the innermost
block that has the label (`Reference.Innermost`). The rounds come to the same: a reference that is
followed on its own from round to round (`Search.settle`) ends where that lookup says
(`Search.state_settle`), and the rounds as a whole are this for each reference, with one problem for
each that has failed (`Program.resolution_fst`, `Program.resolution_snd`). In every round each
reference that waits drops a block or is done with, so none is ever given up.
-/

namespace NineBit.Asm

/-! ## Keys -/

namespace Label

/-- The path of a key. -/
def pathText (block : BlockPath) : List Char :=
  ['.'].intercalate (block.map fun n => Nat.toDigits 10 n)

theorem toList_key (l : Label) :
    l.key.toList = pathText l.block ++ separator :: l.name.toList := by
  have parts : l.block.map (String.toList ∘ fun n => s!"{n}") =
      l.block.map fun n => Nat.toDigits 10 n := by
    refine List.map_congr_left fun n _ => ?_
    exact Nat.toList_repr
  simp only [key, String.toList_append, String.toList_intercalate, List.map_map, parts,
    String.toList_singleton, List.append_assoc, List.singleton_append]
  rfl

theorem isDigit_of_mem {n : Nat} {c : Char} (member : c ∈ Nat.toDigits 10 n) :
    c.isDigit = true := Nat.isDigit_of_mem_toDigits (by decide) (by decide) member

theorem pathText_cons_cons (n m : Nat) (rest : BlockPath) :
    pathText (n :: m :: rest) = Nat.toDigits 10 n ++ '.' :: pathText (m :: rest) := by
  simp only [pathText, List.map_cons, List.intercalate_cons_cons, List.append_assoc,
    List.singleton_append]

theorem separator_not_mem : ∀ block : BlockPath, separator ∉ pathText block
  | [] => List.not_mem_nil
  | [n] => by
    intro member
    rw [pathText, List.map_singleton, List.intercalate_singleton] at member
    exact absurd (isDigit_of_mem member) (by decide)
  | n :: m :: rest => by
    rw [pathText_cons_cons]
    intro member
    rcases List.mem_append.1 member with first | later
    · exact absurd (isDigit_of_mem first) (by decide)
    · rcases List.mem_cons.1 later with dot | tail
      · exact absurd dot (by decide)
      · exact separator_not_mem (m :: rest) tail

theorem splitOn_pathText {block : BlockPath} (inside : block ≠ []) :
    (pathText block).splitOn '.' = block.map fun n => Nat.toDigits 10 n := by
  refine List.splitOn_intercalate '.' ?_ fun none => inside (List.map_eq_nil_iff.1 none)
  intro digits member dot
  obtain ⟨n, -, rfl⟩ := List.mem_map.1 member
  exact absurd (isDigit_of_mem dot) (by decide)

theorem pathText_ne_nil {n : Nat} {rest : BlockPath} : pathText (n :: rest) ≠ [] := by
  have digits : Nat.toDigits 10 n ≠ [] := Nat.toDigits_ne_nil
  cases rest with
  | nil => rwa [pathText, List.map_singleton, List.intercalate_singleton]
  | cons m rest =>
    rw [pathText_cons_cons]
    exact fun none => digits (List.append_eq_nil_iff.1 none).1

theorem pathText_injective {x y : BlockPath} (same : pathText x = pathText y) : x = y := by
  cases x with
  | nil =>
    cases y with
    | nil => rfl
    | cons => exact absurd same.symm pathText_ne_nil
  | cons n x =>
    cases y with
    | nil => exact absurd same pathText_ne_nil
    | cons m y =>
      have digits := splitOn_pathText (List.cons_ne_nil n x)
      rw [same, splitOn_pathText (List.cons_ne_nil m y)] at digits
      refine (List.map_inj_right fun i j equal => ?_).1 digits.symm
      have numbers := congrArg (Nat.ofDigitChars 10 · 0) equal
      simpa only [Nat.ofDigitChars_ten_toDigits] using numbers

theorem takeWhile_pathText (block : BlockPath) (name : List Char) :
    (pathText block ++ separator :: name).takeWhile (· != separator) = pathText block := by
  have inside (c : Char) (member : c ∈ pathText block) : (c != separator) = true :=
    bne_iff_ne.2 fun same => separator_not_mem block (same ▸ member)
  rw [List.takeWhile_append_of_pos inside, List.takeWhile_cons_of_neg (by simp), List.append_nil]

/-- A key tells its label. -/
theorem key_injective {l m : Label} (same : l.key = m.key) : l = m := by
  have chars := congrArg String.toList same
  rw [toList_key, toList_key] at chars
  have paths := congrArg (List.takeWhile (· != separator)) chars
  rw [takeWhile_pathText, takeWhile_pathText] at paths
  rw [paths, List.append_cancel_left_eq] at chars
  have blocks := pathText_injective paths
  have names := String.toList_inj.1 (List.cons.inj chars).2
  cases l
  cases m
  cases blocks
  cases names
  rfl

end Label

/-- Looking a label up by its key finds what the label has in the table. -/
theorem LabelTable.lookup_keys (l : Label) : ∀ table : LabelTable,
    table.keys.lookup l.key = table.find? l
  | [] => rfl
  | entry :: rest => by
    have later := lookup_keys l rest
    have heads : (l.key == entry.1.key) = (l == entry.1) := by
      rw [Bool.eq_iff_iff, beq_iff_eq, beq_iff_eq]
      exact ⟨Label.key_injective, congrArg Label.key⟩
    unfold keys find? at later ⊢
    rw [List.map_cons, List.lookup_cons, List.lookup_cons, heads, later]

/-! ## The innermost block with a label -/

namespace Reference

variable {table : LabelTable} {r : Reference} {q path : BlockPath} {id n : Nat}

/-- The reference, as if it were written in another block. -/
def moved (r : Reference) (path : BlockPath) : Reference := { r with block := path }

theorem enclosing_concat (n : Nat) : ∀ path : BlockPath,
    enclosing (path ++ [n]) = (path ++ [n]) :: enclosing path
  | [] => rfl
  | outermost :: rest => by
    rw [List.cons_append, enclosing, enclosing_concat n rest]
    rfl

theorem resolve?_concat : (r.moved (path ++ [n])).resolve? table =
    match table.find? ⟨path ++ [n], r.name⟩ with
    | some id => some (path ++ [n], id)
    | none => (r.moved path).resolve? table := by
  unfold resolve? moved
  rw [enclosing_concat, List.findSome?_cons]
  cases table.find? ⟨path ++ [n], r.name⟩ <;> rfl

/-- A block around a reference has a label of its name, and no block further inside has one. -/
structure Innermost (table : LabelTable) (r : Reference) (q : BlockPath) (id : Nat) : Prop where
  proper : q ≠ []
  encloses : q <+: r.block
  named : table.find? ⟨q, r.name⟩ = some id
  first : ∀ other, other <+: r.block → q.length < other.length →
    table.find? ⟨other, r.name⟩ = none

/-- No block around a reference has a label of its name. -/
def Unknown (table : LabelTable) (r : Reference) : Prop :=
  ∀ q, q ≠ [] → q <+: r.block → table.find? ⟨q, r.name⟩ = none

theorem Innermost.outwards (inner : Innermost table (r.moved path) q id)
    (missing : table.find? ⟨path ++ [n], r.name⟩ = none) :
    Innermost table (r.moved (path ++ [n])) q id where
  proper := inner.proper
  encloses := inner.encloses.trans (List.prefix_append _ _)
  named := inner.named
  first other around longer := by
    rcases List.prefix_concat_iff.1 around with rfl | shorter
    · exact missing
    · exact inner.first other shorter longer

theorem resolve?_moved (table : LabelTable) (r : Reference) : ∀ path : BlockPath,
    (∃ q id, (r.moved path).resolve? table = some (q, id) ∧
      Innermost table (r.moved path) q id) ∨
    ((r.moved path).resolve? table = none ∧ Unknown table (r.moved path)) := by
  intro path
  induction path using List.reverseRecOn with
  | nil =>
    exact .inr ⟨rfl, fun q proper around => absurd (List.prefix_nil.1 around) proper⟩
  | append_singleton path n ih =>
    rw [resolve?_concat]
    cases here : table.find? ⟨path ++ [n], r.name⟩ with
    | some id =>
      refine .inl ⟨path ++ [n], id, rfl, by simp, List.prefix_refl _, here, ?_⟩
      exact fun other around longer => absurd around.length_le (Nat.not_le.2 longer)
    | none =>
      rcases ih with ⟨q, id, found, inner⟩ | ⟨none, unknown⟩
      · exact .inl ⟨q, id, found, inner.outwards here⟩
      · refine .inr ⟨none, fun q proper around => ?_⟩
        rcases List.prefix_concat_iff.1 around with rfl | shorter
        · exact here
        · exact unknown q proper shorter

/-- The lookup finds the innermost block, or there is none. -/
theorem resolve?_cases (table : LabelTable) (r : Reference) :
    (∃ q id, r.resolve? table = some (q, id) ∧ r.Innermost table q id) ∨
      (r.resolve? table = none ∧ r.Unknown table) :=
  resolve?_moved table r r.block

end Reference

/-! ## One reference -/

namespace Search

variable {keys : List (String × Nat)} {x : Search} {table : LabelTable}

/-- Where a reference ends that is looked up again and again. -/
def settle (keys : List (String × Nat)) (x : Search) : Search :=
  if x.waits then settle keys (x.look keys) else x
  termination_by x.roundsLeft
  decreasing_by exact roundsLeft_look_lt keys ‹_›

theorem settle_of_not_waits (settled : x.waits = false) : x.settle keys = x := by
  rw [settle, settled, if_neg Bool.false_ne_true]

theorem settle_look : (x.look keys).settle keys = x.settle keys := by
  cases waits : x.waits with
  | true => rw [settle.eq_def keys x, if_pos waits]
  | false => rw [look_of_not_waits keys waits]

@[simp] theorem reference_look : (x.look keys).reference = x.reference := by
  unfold look
  repeat' split
  all_goals rfl

@[simp] theorem reference_settle : (x.settle keys).reference = x.reference := by
  fun_induction settle keys x with
  | case1 x waits ih => rw [ih, reference_look]
  | case2 => rfl

/-- A reference that is followed from round to round ends where looking through the blocks says. -/
theorem state_settle (r : Reference) : ∀ path : BlockPath, path ≠ [] →
    (settle table.keys ⟨r, path, .waiting⟩).state =
      match (r.moved path).resolve? table with
      | some meant => .resolved meant.2
      | none => .failed := by
  intro path
  induction path using List.reverseRecOn with
  | nil => exact fun proper => absurd rfl proper
  | append_singleton path n ih =>
    intro _
    have looked : table.keys.lookup (key ⟨r, path ++ [n], .waiting⟩) =
        table.find? ⟨path ++ [n], r.name⟩ := LabelTable.lookup_keys _ table
    rw [← settle_look, Reference.resolve?_concat]
    simp only [look, looked]
    cases here : table.find? ⟨path ++ [n], r.name⟩ with
    | some id => rw [settle_of_not_waits rfl]
    | none =>
      dsimp only
      cases path with
      | nil => rw [if_neg (by simp), settle_of_not_waits rfl]; rfl
      | cons outermost rest =>
        rw [if_pos (by simp), List.dropLast_concat]
        exact ih (List.cons_ne_nil _ _)

theorem state_settle_start {r : Reference} (inside : r.block ≠ []) :
    ((start r).settle table.keys).state =
      match r.resolve? table with
      | some meant => .resolved meant.2
      | none => .failed :=
  state_settle r r.block inside

end Search

/-! ## The rounds -/

namespace Program

variable {p : Program} {keys : List (String × Nat)} {searches : List Search}

/-- A round for something that waits changes something. -/
theorem round_ne (waits : searches.any Search.waits = true) :
    Search.round keys searches ≠ searches := by
  intro same
  have fewer := Search.looksLeft_round_lt keys waits
  rw [same] at fewer
  exact Nat.lt_irrefl _ fewer

theorem rounds_fst : (p.rounds keys searches).1 = searches.map (Search.settle keys) := by
  fun_induction rounds p keys searches with
  | case1 searches waits next same => exact absurd same (round_ne waits)
  | case2 searches waits next changed ih =>
    refine ih.trans ?_
    rw [show next = searches.map (Search.look keys) from rfl, List.map_map]
    exact List.map_congr_left fun x _ => Search.settle_look
  | case3 searches settled =>
    rw [Bool.not_eq_true, List.any_eq_false] at settled
    refine (List.map_id _).symm.trans (List.map_congr_left fun x member => ?_)
    exact (Search.settle_of_not_waits (Bool.eq_false_iff.2 (settled x member))).symm

/-- The reference waits, and will fail in one of the rounds to come. -/
def Dooms (keys : List (String × Nat)) (x : Search) : Bool :=
  x.waits && (x.settle keys).hasFailed

/-- A reference fails in this round or in a later one, not in both. -/
theorem dooms_look (x : Search) : Dooms keys (x.look keys) =
    (Dooms keys x && !(x.waits && (x.look keys).hasFailed)) := by
  unfold Dooms
  rw [Search.settle_look]
  cases waits : x.waits with
  | false => rw [Search.look_of_not_waits keys waits, waits]; rfl
  | true =>
    cases later : (x.look keys).waits with
    | true =>
      have state : (x.look keys).state = .waiting := of_decide_eq_true later
      have open_ : (x.look keys).hasFailed = false := by
        unfold Search.hasFailed
        rw [state]
        rfl
      rw [open_]
      simp
    | false =>
      rw [← Search.settle_look, Search.settle_of_not_waits later]
      simp

theorem dooms_of_lost {x : Search} (lost : (x.waits && (x.look keys).hasFailed) = true) :
    Dooms keys x = true := by
  obtain ⟨waits, failed⟩ := Bool.and_eq_true_iff.1 lost
  have done : (x.look keys).waits = false := by
    have state : (x.look keys).state = .failed := of_decide_eq_true failed
    unfold Search.waits
    rw [state]
    rfl
  unfold Dooms
  rw [waits, ← Search.settle_look, Search.settle_of_not_waits done, failed]
  rfl

/-- What fails at all fails in this round or in a later one. -/
theorem perm_doomed :
    (searches.filter (fun x => x.waits && (x.look keys).hasFailed) ++
      searches.filter (Dooms keys ∘ Search.look keys)).Perm (searches.filter (Dooms keys)) := by
  have split := List.filter_append_perm (fun x => x.waits && (x.look keys).hasFailed)
    (searches.filter (Dooms keys))
  rw [List.filter_filter, List.filter_filter] at split
  have now : searches.filter (fun x => (x.waits && (x.look keys).hasFailed) && Dooms keys x) =
      searches.filter fun x => x.waits && (x.look keys).hasFailed := by
    refine List.filter_congr fun x _ => ?_
    cases lost : x.waits && (x.look keys).hasFailed with
    | true => rw [dooms_of_lost lost]; rfl
    | false => rfl
  have later : searches.filter (fun x => (!(x.waits && (x.look keys).hasFailed)) && Dooms keys x) =
      searches.filter (Dooms keys ∘ Search.look keys) :=
    List.filter_congr fun x _ => (Bool.and_comm _ _).trans (dooms_look x).symm
  rwa [now, later] at split

/-- The rounds report one problem for each reference that fails, and no other. -/
theorem rounds_snd : (p.rounds keys searches).2.Perm
    ((searches.filter (Dooms keys)).map fun x => p.undefinedProblem x.reference) := by
  fun_induction rounds p keys searches with
  | case1 searches waits next same => exact absurd same (round_ne waits)
  | case2 searches waits next changed ih =>
    have moved : (next.filter (Dooms keys)).map (fun x => p.undefinedProblem x.reference) =
        (searches.filter (Dooms keys ∘ Search.look keys)).map
          fun x => p.undefinedProblem x.reference := by
      rw [show next = searches.map (Search.look keys) from rfl, List.filter_map, List.map_map]
      refine List.map_congr_left fun x _ => ?_
      exact congrArg p.undefinedProblem Search.reference_look
    rw [moved] at ih
    refine (List.Perm.append_left _ ih).trans ?_
    rw [← List.map_append]
    exact perm_doomed.map _
  | case3 searches settled =>
    have none : searches.filter (Dooms keys) = [] := by
      refine List.filter_eq_nil_iff.2 fun x member doomed => settled ?_
      exact List.any_eq_true.2 ⟨x, member, (Bool.and_eq_true_iff.1 doomed).1⟩
    rw [none]
    exact .nil

/-! ## The references of a program -/

/-- What comes of the references is what comes of each of them. -/
theorem resolution_fst (p : Program) : p.resolution.1 =
    p.references.map fun r => (Search.start r).settle p.labels.keys :=
  rounds_fst.trans List.map_map

/-- There is one problem for each reference that has failed. -/
theorem resolution_snd (p : Program) : p.resolution.2.Perm
    ((p.resolution.1.filter Search.hasFailed).map fun x => p.undefinedProblem x.reference) := by
  have all : p.resolution.1.filter Search.hasFailed =
      ((p.references.map Search.start).filter (Dooms p.labels.keys)).map
        (Search.settle p.labels.keys) := by
    rw [resolution_fst, List.filter_map, List.filter_map, List.map_map]
    rfl
  refine rounds_snd.trans ?_
  rw [all, List.map_map]
  refine .of_eq (List.map_congr_left fun x _ => ?_)
  exact congrArg p.undefinedProblem Search.reference_settle.symm

/-- Every problem is one of a reference whose label no block around it has. -/
theorem kind_of_resolution (p : Program) : ∀ d ∈ p.resolution.2, d.kind = .undefinedLabel := by
  intro d member
  obtain ⟨x, -, rfl⟩ := List.mem_map.1 (p.resolution_snd.subset member)
  rfl

/-- Without a problem every reference means something. -/
theorem target?_of_resolution {p : Program} (none : p.resolution.2 = []) {r : Reference}
    (member : r ∈ p.references) (inside : r.block ≠ []) :
    ∃ id, r.target? p.labels = some id := by
  unfold Reference.target?
  cases meant : r.resolve? p.labels with
  | some found => exact ⟨found.2, rfl⟩
  | none =>
    have state : ((Search.start r).settle p.labels.keys).state = _ :=
      Search.state_settle_start inside
    rw [meant] at state
    have failed : ((Search.start r).settle p.labels.keys).hasFailed = true :=
      decide_eq_true state
    have among : (Search.start r).settle p.labels.keys ∈ p.resolution.1 := by
      rw [resolution_fst]
      exact List.mem_map_of_mem member
    have problem := p.resolution_snd.symm.subset
      (List.mem_map_of_mem (List.mem_filter.2 ⟨among, failed⟩))
    rw [none] at problem
    exact absurd problem List.not_mem_nil

end Program

end NineBit.Asm

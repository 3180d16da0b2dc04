import NineBit.Proofs.Asm.Repetition
import NineBit.Proofs.Asm.Scoping

/-!
# Blocks by themselves

A block that is parsed without a problem can be repeated, one copy after the other: each copy is the
same program, with other indices and in blocks of its own (`parse_replicate`). A row of copies is
what the parser reads (`Parser.row_readStatements`). Looking a label up from within a copy finds
what looking it up from within the first block finds, some indices further
(`LabelTable.find?_copied`), and so does following a reference from block to block
(`Search.settle_move`): no label of another copy has the same path, and in the outermost block there
is none.
-/

namespace NineBit.Asm

/-! ## Rows of copies -/

/-- One program after another, each a copy of the same one in a block of its own. -/
structure Program.Copied (one : Program) (n : Nat) (all : Program) : Prop where
  statements : all.statements.toList = (List.range n).flatMap fun i =>
    one.statements.toList.map (Statement.move (further i) (i * one.statements.size))
  labels : all.labels = (List.range n).flatMap fun i =>
    one.labels.map (LabelTable.moveEntry (further i) (i * one.statements.size))
  references : all.references = (List.range n).flatMap fun i =>
    one.references.map (Reference.move (further i))

namespace Parser

variable {limit : Int} {tokens body : List Token} {opening closing : Token} {one t : State}
  {n : Nat}

theorem finished_of_clean (reads : readStatements limit .initial tokens = one)
    (clean : (parseStatements limit tokens).2 = []) (some : tokens ≠ []) : one.Finished := by
  subst reads
  have grows := grows_readStatements limit .initial tokens
  have ends := (State.Faulted.atEnd (readStatements limit .initial tokens) tokens).grows
  obtain ⟨quiet, closed⟩ := grows.clean ends (List.reverse_eq_nil_iff.1 clean)
  obtain ⟨waits, outer⟩ := atEnd_iff.1 closed
  exact ⟨outer.resolve_right some, waits, quiet⟩

theorem parseStatements_of_finished (reads : readStatements limit .initial tokens = one)
    (finished : one.Finished) : parseStatements limit tokens =
      (⟨one.statements, one.labels, one.references.reverse⟩, []) := by
  have quiet : (one.atEnd tokens).faults = one.faults :=
    atEnd_iff.2 ⟨finished.waiting, .inl finished.outer⟩
  obtain ⟨-, -, faults, demands, same⟩ := State.Faulted.atEnd one tokens
  unfold parseStatements
  dsimp only
  rw [reads, quiet, same, finished.faults]
  rfl

/-- Nothing has been read yet. -/
theorem row_initial (one : State) : State.Row one 0 .initial :=
  ⟨⟨⟨rfl, rfl, rfl⟩, rfl⟩, rfl, rfl, rfl⟩

/-- What is found in a block is in a block. -/
theorem inside_readStatements (start : opening.kind = .blockStart)
    (stop : closing.kind = .blockEnd) (stays : StaysIn 0 body)
    (reads : readStatements limit .initial (opening :: (body ++ [closing])) = one)
    (first : one.Finished) : one.Inside := by
  have behind : State.initial.Behind 0 := (row_initial one).behind
  have clear : State.initial.Clear 1 := fun _ member => absurd member List.not_mem_nil
  have ends : Ends [] := fun _ none => nomatch none
  obtain ⟨-, -, -, -, inside⟩ :=
    readStatements_block start stop stays reads first behind clear ends
  exact inside

/-- A block without a problem can be repeated without a problem. -/
theorem copied_parseStatements (start : opening.kind = .blockStart)
    (stop : closing.kind = .blockEnd) (stays : StaysIn 0 body)
    (clean : (parseStatements limit (opening :: (body ++ [closing]))).2 = []) (n : Nat) :
    (parseStatements limit (List.replicate n (opening :: (body ++ [closing]))).flatten).2 = [] ∧
      (parseStatements limit (opening :: (body ++ [closing]))).1.Copied n
        (parseStatements limit (List.replicate n (opening :: (body ++ [closing]))).flatten).1 ∧
      (∀ l ∈ (parseStatements limit (opening :: (body ++ [closing]))).1.labels.map Prod.fst,
        InFirst l.block) ∧
      ∀ r ∈ (parseStatements limit (opening :: (body ++ [closing]))).1.references,
        InFirst r.block := by
  have first := finished_of_clean rfl clean (List.cons_ne_nil _ _)
  have inside := inside_readStatements start stop stays rfl first
  have row := row_readStatements start stop stays rfl first inside n (row_initial _)
  rw [Nat.zero_add] at row
  rw [parseStatements_of_finished rfl first, parseStatements_of_finished rfl row.behind.toFinished]
  exact ⟨rfl, ⟨row.statements, row.labels, row.references⟩, inside.labels, fun r member =>
    inside.references r (List.mem_reverse.1 member)⟩

end Parser

/-! ## Labels of copies -/

/-- The path of the outermost block or of a block in its first one. -/
def Around (path : BlockPath) : Prop := path = [0] ∨ InFirst path

/-- No two copies share a label. -/
theorem copies_apart {l m : Label} {i j : Nat} (inside : InFirst l.block) (around : Around m.block)
    (same : l.move (further i) = m.move (further j)) : i = j ∧ l = m := by
  obtain ⟨rest, path⟩ := inside.further i
  have paths : further i l.block = further j m.block := congrArg Label.block same
  rcases around with outermost | inside'
  · rw [path, outermost] at paths
    cases paths
  · obtain ⟨rest', path'⟩ := inside'.further j
    rw [path, path'] at paths
    obtain rfl : i = j := Nat.add_left_cancel (List.cons.inj (List.cons.inj paths).2).1
    exact ⟨rfl, Label.move_injective (further_injective i) same⟩

section
variable {one all : LabelTable} {n size i : Nat}

/-- Looking up a label of a copy finds the statement of the copy. -/
theorem LabelTable.find?_copied
    (copied : all = (List.range n).flatMap fun i =>
      one.map (LabelTable.moveEntry (further i) (i * size)))
    (distinct : (one.map Prod.fst).Nodup) (distinct' : (all.map Prod.fst).Nodup)
    (inside : ∀ l ∈ one.map Prod.fst, InFirst l.block) (lt : i < n) {l : Label}
    (around : Around l.block) :
    all.find? (l.move (further i)) = (one.find? l).map (· + i * size) := by
  refine Option.ext fun id => ?_
  rw [Option.map_eq_some_iff, find?_eq_some_iff distinct', copied, List.mem_flatMap]
  constructor
  · rintro ⟨j, -, entry⟩
    obtain ⟨⟨m, k⟩, member, moved⟩ := List.mem_map.1 entry
    obtain ⟨labels, rfl⟩ := Prod.mk.inj moved
    obtain ⟨rfl, rfl⟩ := copies_apart (inside m (List.mem_map_of_mem member)) around labels
    exact ⟨k, (find?_eq_some_iff distinct).2 member, rfl⟩
  · rintro ⟨k, found, rfl⟩
    refine ⟨i, List.mem_range.2 lt, List.mem_map.2 ⟨(l, k), ?_, rfl⟩⟩
    exact (find?_eq_some_iff distinct).1 found

end

/-! ## References of copies -/

/-- The same outcome, so many indices further. -/
def Resolution.move (offset : Nat) : Resolution → Resolution
  | .resolved id => .resolved (id + offset)
  | .waiting => .waiting
  | .failed => .failed

/-- The search for a reference with other paths and indices. -/
def Search.move (f : BlockPath → BlockPath) (offset : Nat) (x : Search) : Search :=
  ⟨x.reference.move f, f x.path, x.state.move offset⟩

theorem length_further (i : Nat) : ∀ path : BlockPath, (further i path).length = path.length
  | [] | [_] | _ :: _ :: _ => rfl

theorem dropLast_further (i : Nat) : ∀ path : BlockPath,
    (further i path).dropLast = further i path.dropLast
  | [] | [_] | [_, _] | _ :: _ :: _ :: _ => rfl

theorem Around.dropLast {path : BlockPath} (around : Around path) (longer : 1 < path.length) :
    Around path.dropLast := by
  rcases around with rfl | ⟨rest, rfl⟩
  · cases longer with
    | step le => cases le
  · cases rest with
    | nil => exact .inl rfl
    | cons n rest => exact .inr ⟨(n :: rest).dropLast, rfl⟩

namespace Search

variable {x : Search} {keys keys' : List (String × Nat)} {i offset : Nat}

@[simp] theorem waits_move (f : BlockPath → BlockPath) (offset : Nat) (x : Search) :
    (x.move f offset).waits = x.waits := by
  obtain ⟨r, path, state⟩ := x
  cases state <;> rfl

@[simp] theorem hasFailed_move (f : BlockPath → BlockPath) (offset : Nat) (x : Search) :
    (x.move f offset).hasFailed = x.hasFailed := by
  obtain ⟨r, path, state⟩ := x
  cases state <;> rfl

theorem around_look (around : Around x.path) : Around (x.look keys).path := by
  unfold look
  split
  · split
    · exact around
    · split
      · exact around.dropLast ‹_›
      · exact around
  · exact around

/-- One round in a copy. -/
theorem look_move
    (looked : keys'.lookup (x.move (further i) offset).key = (keys.lookup x.key).map (· + offset)) :
    (x.move (further i) offset).look keys' = (x.look keys).move (further i) offset := by
  obtain ⟨r, path, state⟩ := x
  cases state with
  | resolved id => rfl
  | failed => rfl
  | waiting =>
    unfold look
    simp only [move, Resolution.move] at looked ⊢
    rw [looked]
    cases keys.lookup (key ⟨r, path, .waiting⟩) with
    | some id => rfl
    | none =>
      dsimp only [Option.map_none]
      have length := length_further i path
      by_cases longer : 1 < path.length
      · rw [if_pos longer, dropLast_further]
        exact if_pos (length.symm ▸ longer)
      · rw [if_neg longer]
        exact if_neg (length.symm ▸ longer)

/-- A reference of a copy ends where that of the first block ends, some indices further. -/
theorem settle_move {one all : LabelTable}
    (found : ∀ l : Label, Around l.block →
      all.find? (l.move (further i)) = (one.find? l).map (· + offset))
    (around : Around x.path) :
    (x.move (further i) offset).settle all.keys =
      (x.settle one.keys).move (further i) offset := by
  fun_induction settle one.keys x with
  | case1 x waits ih =>
    have looked : all.keys.lookup (x.move (further i) offset).key =
        (one.keys.lookup x.key).map (· + offset) := by
      unfold key
      rw [LabelTable.lookup_keys, LabelTable.lookup_keys]
      exact found ⟨x.path, x.reference.name⟩ around
    rw [← settle_look, look_move looked]
    exact ih (around_look around)
  | case2 x settled =>
    exact settle_of_not_waits ((waits_move _ _ _).trans (Bool.eq_false_iff.2 settled))

end Search

namespace Program

variable {limit : Int} {tokens tokens' : List Token} {p one all : Program} {n : Nat}

/-- Without a problem no reference has failed. -/
theorem resolution_eq_nil_iff :
    p.resolution.2 = [] ↔ ∀ x ∈ p.resolution.1, x.hasFailed = false := by
  have length := p.resolution_snd.length_eq
  rw [List.length_map] at length
  rw [← List.length_eq_zero_iff, length, List.length_eq_zero_iff, List.filter_eq_nil_iff]
  exact forall₂_congr fun x _ => Bool.eq_false_iff.symm

/-- The references of each copy are followed as those of the first block. -/
theorem Copied.searches (copied : one.Copied n all)
    (found : ∀ i < n, ∀ l : Label, Around l.block →
      all.labels.find? (l.move (further i)) =
        (one.labels.find? l).map (· + i * one.statements.size))
    (inside : ∀ r ∈ one.references, InFirst r.block) :
    all.resolution.1 = (List.range n).flatMap fun i =>
      one.resolution.1.map (Search.move (further i) (i * one.statements.size)) := by
  rw [resolution_fst, copied.references, List.map_flatMap, resolution_fst]
  refine List.flatMap_congr fun i member => ?_
  rw [List.map_map, List.map_map]
  refine List.map_congr_left fun r written => ?_
  have around : Around (Search.start r).path := .inr (inside r written)
  exact Search.settle_move (found i (List.mem_range.1 member)) around

/-- Copies of a program in a row, each by itself: what the references of a copy mean is in the same
    copy, and no other copy has its labels. -/
structure Row (one : Program) (n : Nat) (all : Program) : Prop extends one.Copied n all where
  /-- The statement of a copy has the index of that of the first one, so many programs further. -/
  placed : ∀ i < n, ∀ id st, one.statements[id]? = some st →
    all.statements[id + i * one.statements.size]? =
      some (st.move (further i) (i * one.statements.size))
  /-- What is found for a reference of a copy is in the same copy. -/
  searches : all.resolution.1 = (List.range n).flatMap fun i =>
    one.resolution.1.map (Search.move (further i) (i * one.statements.size))
  /-- In the first one, every reference means a statement. -/
  resolved : ∀ x ∈ one.resolution.1, ∃ id st, x.state = .resolved id ∧
    one.statements[id]? = some st
  /-- Labels of different copies have different keys. -/
  apart : ∀ i j, i ≠ j → ∀ l ∈ one.labels.map Prod.fst, ∀ m ∈ one.labels.map Prod.fst,
    (l.move (further i)).key ≠ (m.move (further j)).key

theorem Copied.placed (copied : one.Copied n all) (recorded : one.Recorded limit tokens)
    (recorded' : all.Recorded limit tokens') {i : Nat} (lt : i < n) {id : Nat} {st : Statement}
    (found : one.statements[id]? = some st) :
    all.statements[id + i * one.statements.size]? =
      some (st.move (further i) (i * one.statements.size)) := by
  have member : st.move (further i) (i * one.statements.size) ∈ all.statements := by
    rw [← Array.mem_toList_iff, copied.statements]
    refine List.mem_flatMap.2 ⟨i, List.mem_range.2 lt, List.mem_map_of_mem ?_⟩
    exact Array.mem_toList_iff.2 (Array.mem_of_getElem? found)
  obtain ⟨index, place⟩ := Array.mem_iff_getElem?.1 member
  have same : st.id + i * one.statements.size = index := recorded'.indexed index _ place
  rw [recorded.indexed id st found] at same
  rwa [same]

/-- Copies of labels of the first block differ in their keys. -/
theorem apart_of_inside (inside : ∀ l ∈ one.labels.map Prod.fst, InFirst l.block) {i j : Nat}
    (other : i ≠ j) {l m : Label} (first : l ∈ one.labels.map Prod.fst)
    (second : m ∈ one.labels.map Prod.fst) :
    (l.move (further i)).key ≠ (m.move (further j)).key := by
  intro same
  have around : Around m.block := .inr (inside m second)
  exact other (copies_apart (inside l first) around (Label.key_injective same)).1

/-- Every reference means a statement, if there is no problem. -/
theorem resolved_of_clean (recorded : p.Recorded limit tokens) (clean : p.resolution.2 = []) :
    ∀ x ∈ p.resolution.1, ∃ id st, x.state = .resolved id ∧ p.statements[id]? = some st := by
  intro x member
  have settled := recorded.scope.settled x member
  have kept := resolution_eq_nil_iff.1 clean x member
  obtain ⟨r, path, state⟩ := x
  cases state with
  | waiting => exact settled.elim
  | failed => cases kept
  | resolved id =>
    obtain ⟨block, st, found, -, -⟩ := settled
    exact ⟨id, st, rfl, found⟩

end Program

/-- A block that is parsed without a problem can be repeated. However often it stands one after the
    other, there is no problem; each copy has the same statements, with indices that go on from copy
    to copy; each reference means the statement of its own copy that it means in the block by
    itself, and no two copies have a label with the same key. -/
theorem parse_replicate {limit : Int} {opening closing : Token} {body : List Token}
    (opens : opening.kind = .blockStart) (closes : closing.kind = .blockEnd)
    (balanced : Parser.StaysIn 0 body)
    (clean : (parse limit (opening :: (body ++ [closing]))).problems = []) (n : Nat) :
    (parse limit (List.replicate n (opening :: (body ++ [closing]))).flatten).problems = [] ∧
      (parse limit (opening :: (body ++ [closing]))).value.Row n
        (parse limit (List.replicate n (opening :: (body ++ [closing]))).flatten).value := by
  rw [problems_parse] at clean
  obtain ⟨formed, known⟩ := List.append_eq_nil_iff.1 clean
  obtain ⟨formed', copied, labels, references⟩ :=
    Parser.copied_parseStatements opens closes balanced formed n
  have here := Parser.Place.Recorded.parsed limit (opening :: (body ++ [closing]))
  have there := Parser.Place.Recorded.parsed limit
    (List.replicate n (opening :: (body ++ [closing]))).flatten
  have recorded := recorded_parseStatements limit (opening :: (body ++ [closing]))
  have recorded' := recorded_parseStatements limit
    (List.replicate n (opening :: (body ++ [closing]))).flatten
  have searches := copied.searches (fun i lt l around => LabelTable.find?_copied copied.labels
    here.distinct there.distinct labels lt around) references
  rw [problems_parse, value_parse, value_parse, formed', List.nil_append]
  refine ⟨Program.resolution_eq_nil_iff.2 fun x member => ?_, copied, ?_, searches,
    Program.resolved_of_clean recorded known, ?_⟩
  · rw [searches] at member
    obtain ⟨i, -, moved⟩ := List.mem_flatMap.1 member
    obtain ⟨original, listed, rfl⟩ := List.mem_map.1 moved
    rw [Search.hasFailed_move]
    exact Program.resolution_eq_nil_iff.1 known original listed
  · exact fun i lt id st found => copied.placed recorded recorded' lt found
  · exact fun i j other l first m second => Program.apart_of_inside labels other first second

/-- A label before and one behind a block within, which has one of the same name, three times. -/
theorem parse_replicate_thrice :
    let opening : Token := ⟨.blockStart, "#push", default⟩
    let closing : Token := ⟨.blockEnd, "#pop", default⟩
    let body := Assembly.expanded
      ⟨"block", "x: pc = :y #push pc = :x y: pc = :y #pop y: pc = :x"⟩
    Parser.StaysIn 0 body ∧ (parse 2 (opening :: (body ++ [closing]))).problems = [] ∧
      (parse 2 (opening :: (body ++ [closing]))).value.Row 3
        (parse 2 (List.replicate 3 (opening :: (body ++ [closing]))).flatten).value ∧
      (parse 2 (List.replicate 3 (opening :: (body ++ [closing]))).flatten).value.resolution.1.map
        Search.state = [.resolved 3, .resolved 0, .resolved 2, .resolved 0,
          .resolved 7, .resolved 4, .resolved 6, .resolved 4,
          .resolved 11, .resolved 8, .resolved 10, .resolved 8] := by
  intro opening closing body
  have balanced : Parser.StaysIn 0 body := by decide +kernel
  have clean : (parse 2 (opening :: (body ++ [closing]))).problems = [] := by decide +kernel
  exact ⟨balanced, clean, (parse_replicate rfl rfl balanced clean 3).2, by decide +kernel⟩

end NineBit.Asm

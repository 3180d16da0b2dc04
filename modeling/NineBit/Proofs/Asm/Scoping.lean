import NineBit.Proofs.Asm.Sentences

/-!
# Lexical scoping

Whatever tokens are parsed, with or without problems of form, each reference ends in one of two
ways. It means the statement with the label of its name in the innermost block around it that has
such a label, wherever in that block the label stands; or no block around it has one, and one
problem says so (`references_scoped`). Blocks are meant as they stand in the tokens: the paths that
the parser hands out tell which marks are open at a place (`Parser.Place.path_prefix_iff`), and the
marks that are open at a label are open at every reference that means it. None is given up.
-/

namespace NineBit.Asm

/-! ## What a reference means -/

/-- The statement that a reference means, by the block with its label: the block is around the
    reference, no other statement has the label there, and no block further inside has a label of
    that name. -/
structure Program.Means (p : Program) (r : Reference) (block : BlockPath) (st : Statement) :
    Prop where
  proper : block ≠ []
  encloses : block <+: r.block
  named : st.label = some ⟨block, r.name⟩
  only : ∀ other ∈ p.statements, other.label = some ⟨block, r.name⟩ → other = st
  innermost : ∀ other ∈ p.statements, ∀ path, path <+: r.block →
    other.label = some ⟨path, r.name⟩ → path.length ≤ block.length

/-- No block around a reference has a label of its name. -/
def Program.Lacks (p : Program) (r : Reference) : Prop :=
  ∀ st ∈ p.statements, ∀ path, path <+: r.block → st.label ≠ some ⟨path, r.name⟩

/-- The search has come to the end that it should come to. -/
def Search.Settled (p : Program) (x : Search) : Prop :=
  match x.state with
  | .waiting => False
  | .resolved id => ∃ block st, p.statements[id]? = some st ∧ st.id = id ∧
      p.Means x.reference block st
  | .failed => p.Lacks x.reference

/-- The statement that has been found. -/
def Resolution.target? : Resolution → Option Nat
  | .resolved id => some id
  | .waiting | .failed => none

/-- How the references of a parsed program stand to its labels. -/
structure Program.Scoped (limit : Int) (tokens : List Token) (p : Program) : Prop where
  /-- The path of a place tells which marks are open there: that of another place begins with it
      exactly if those marks are open there, too. -/
  blocks : ∀ x y : Parser.Place, x.Reached limit tokens → y.Reached limit tokens →
    (x.path <+: y.path ↔ x.marks <:+ y.marks)
  /-- A reference has the path of a place where a statement begins that it is written in. -/
  written : ∀ r ∈ p.references, Parser.Place.Written limit tokens r
  /-- A label has the path of the place where it stands. -/
  declared : ∀ st ∈ p.statements, ∀ l ∈ st.label, Parser.Place.Declared limit tokens l
  /-- Every reference is searched for, in the order of the text. -/
  searched : p.resolution.1.map Search.reference = p.references
  settled : ∀ x ∈ p.resolution.1, x.Settled p
  /-- No label of a block beside or within the reference's block is meant. -/
  lexical : ∀ x ∈ p.resolution.1, ∀ id st, x.state = .resolved id → p.statements[id]? = some st →
    ∃ (here there : Parser.Place) (l : Label), here.Reached limit tokens ∧
      here.Writes limit x.reference ∧ there.Reached limit tokens ∧ st.label = some l ∧
        there.Declares l ∧ there.marks <:+ here.marks
  /-- The layout goes by what has been found. -/
  targets : ∀ x ∈ p.resolution.1, x.reference.target? p.labels = x.state.target?

/-! ## Labels and statements -/

section
variable {limit : Int} {tokens : List Token} {s : Parser.State} {l : Label} {id : Nat}

theorem find?_eq_some_iff {table : LabelTable} (distinct : (table.map Prod.fst).Nodup) :
    table.find? l = some id ↔ (l, id) ∈ table := by
  constructor
  · intro found
    obtain ⟨before, after, same, -⟩ := List.lookup_eq_some_iff.1 found
    rw [same]
    exact List.mem_append_right _ List.mem_cons_self
  · intro member
    obtain ⟨before, after, rfl⟩ := List.append_of_mem member
    refine List.lookup_eq_some_iff.2 ⟨before, after, rfl, fun entry early => bne_iff_ne.2 ?_⟩
    rintro rfl
    rw [List.map_append, List.map_cons, List.nodup_append] at distinct
    exact distinct.2.2 _ (List.mem_map_of_mem early) _ List.mem_cons_self rfl

/-- A label names the statement that carries it. -/
theorem find?_of_recorded (recorded : Parser.Place.Recorded limit tokens s) :
    s.labels.find? l = some id ↔ ∃ st, s.statements[id]? = some st ∧ st.label = some l :=
  (find?_eq_some_iff recorded.distinct).trans (recorded.labels l id)

/-- The label of a statement is declared at some place. -/
theorem declared_of_recorded (recorded : Parser.Place.Recorded limit tokens s) {st : Statement}
    (member : st ∈ s.statements) (named : st.label = some l) :
    Parser.Place.Declared limit tokens l := by
  obtain ⟨id, found⟩ := Array.mem_iff_getElem?.1 member
  refine recorded.declared l (List.mem_map.2 ⟨(l, id), ?_, rfl⟩)
  exact (recorded.labels l id).2 ⟨st, found, named⟩

end

section
variable {limit : Int} {tokens : List Token} {p : Program} {r : Reference} {block : BlockPath}
  {id : Nat}

/-- The program has what the parser has recorded. -/
structure Program.Recorded (limit : Int) (tokens : List Token) (p : Program) : Prop where
  named : ∀ (l : Label) (id : Nat), p.labels.find? l = some id ↔
    ∃ st, p.statements[id]? = some st ∧ st.label = some l
  indexed : ∀ (id : Nat) (st : Statement), p.statements[id]? = some st → st.id = id
  written : ∀ r ∈ p.references, Parser.Place.Written limit tokens r
  declared : ∀ st ∈ p.statements, ∀ l ∈ st.label, Parser.Place.Declared limit tokens l

theorem recorded_parseStatements (limit : Int) (tokens : List Token) :
    (parseStatements limit tokens).1.Recorded limit tokens := by
  have recorded := Parser.Place.Recorded.parsed limit tokens
  refine ⟨fun l id => find?_of_recorded recorded, recorded.indexed, fun r member => ?_, ?_⟩
  · exact recorded.references r (List.mem_reverse.1 member)
  · exact fun st member l named => declared_of_recorded recorded member named

namespace Program.Recorded

theorem find_of_named (recorded : p.Recorded limit tokens) {st : Statement} {l : Label}
    (member : st ∈ p.statements) (named : st.label = some l) :
    ∃ id, p.statements[id]? = some st ∧ p.labels.find? l = some id := by
  obtain ⟨id, found⟩ := Array.mem_iff_getElem?.1 member
  exact ⟨id, found, (recorded.named l id).2 ⟨st, found, named⟩⟩

/-- The innermost block with a label of the table has the statement that is meant. -/
theorem means (recorded : p.Recorded limit tokens)
    (inner : Reference.Innermost p.labels r block id) :
    ∃ st, p.statements[id]? = some st ∧ p.Means r block st := by
  obtain ⟨st, found, named⟩ := (recorded.named _ _).1 inner.named
  refine ⟨st, found, inner.proper, inner.encloses, named, fun other member same => ?_,
    fun other member path around same => ?_⟩
  · obtain ⟨i, at_, looked⟩ := recorded.find_of_named member same
    rw [inner.named] at looked
    cases looked
    exact Option.some.inj (at_.symm.trans found)
  · obtain ⟨i, -, looked⟩ := recorded.find_of_named member same
    by_contra longer
    rw [inner.first path around (Nat.lt_of_not_le longer)] at looked
    cases looked

theorem lacks (recorded : p.Recorded limit tokens) (unknown : Reference.Unknown p.labels r) :
    p.Lacks r := by
  intro st member path around named
  obtain ⟨y, -, token, rest, -, -, same⟩ := recorded.declared st member _ named
  have proper : path ≠ [] := by
    rw [show path = y.path from congrArg Label.block same]
    exact y.path_ne_nil
  obtain ⟨i, -, looked⟩ := recorded.find_of_named member named
  rw [unknown path proper around] at looked
  cases looked

/-- A reference that is written in a block comes to its end. -/
theorem settled (recorded : p.Recorded limit tokens) (inside : r.block ≠ []) :
    ((Search.start r).settle p.labels.keys).Settled p := by
  unfold Search.Settled
  rw [Search.state_settle_start inside, Search.reference_settle]
  rcases r.resolve?_cases p.labels with ⟨block, id, found, inner⟩ | ⟨none, unknown⟩
  · rw [found]
    obtain ⟨st, at_, means⟩ := recorded.means inner
    exact ⟨block, st, at_, recorded.indexed id st at_, means⟩
  · rw [none]
    exact recorded.lacks unknown

/-- The blocks that are open at a label are open at a reference that means it. -/
theorem lexical (recorded : p.Recorded limit tokens) {st : Statement} (member : st ∈ p.statements)
    (written : r ∈ p.references) (means : p.Means r block st) :
    ∃ (here there : Parser.Place) (l : Label), here.Reached limit tokens ∧
      here.Writes limit r ∧ there.Reached limit tokens ∧ st.label = some l ∧
        there.Declares l ∧ there.marks <:+ here.marks := by
  obtain ⟨here, reached, writes⟩ := recorded.written r written
  obtain ⟨there, reached', declares⟩ := recorded.declared st member _ means.named
  refine ⟨here, there, _, reached, writes, reached', means.named, declares, ?_⟩
  obtain ⟨_, _, _, -, -, -, -, made⟩ := writes
  obtain ⟨_, _, -, -, same⟩ := declares
  have encloses := means.encloses
  rw [show r.block = here.path from congrArg Reference.block made,
    show block = there.path from congrArg Label.block same] at encloses
  exact (Parser.Place.path_prefix_iff reached' reached).1 encloses

/-- The program is scoped as its tokens say. -/
theorem scope (recorded : p.Recorded limit tokens) : p.Scoped limit tokens := by
  have inside (r : Reference) (member : r ∈ p.references) : r.block ≠ [] := by
    obtain ⟨here, -, _, _, _, -, -, -, -, made⟩ := recorded.written r member
    rw [show r.block = here.path from congrArg Reference.block made]
    exact here.path_ne_nil
  have all (x : Search) (member : x ∈ p.resolution.1) :
      ∃ r ∈ p.references, x = (Search.start r).settle p.labels.keys := by
    rw [Program.resolution_fst] at member
    obtain ⟨r, listed, rfl⟩ := List.mem_map.1 member
    exact ⟨r, listed, rfl⟩
  refine ⟨fun x y here there => Parser.Place.path_prefix_iff here there, recorded.written,
    recorded.declared, ?_, fun x member => ?_, fun x member id st state found => ?_,
    fun x member => ?_⟩
  · rw [Program.resolution_fst, List.map_map]
    refine (List.map_congr_left fun r _ => ?_).trans (List.map_id _)
    exact Search.reference_settle
  · obtain ⟨r, listed, rfl⟩ := all x member
    exact recorded.settled (inside r listed)
  · obtain ⟨r, listed, rfl⟩ := all x member
    have settled := recorded.settled (inside r listed)
    unfold Search.Settled at settled
    rw [state, Search.reference_settle] at settled
    obtain ⟨block, other, at_, -, means⟩ := settled
    cases Option.some.inj (found.symm.trans at_)
    rw [Search.reference_settle]
    exact recorded.lexical (Array.mem_of_getElem? found) listed means
  · obtain ⟨r, listed, rfl⟩ := all x member
    rw [Search.reference_settle, Search.state_settle_start (inside r listed)]
    change (r.resolve? p.labels).map (·.2) = _
    cases r.resolve? p.labels <;> rfl

end Program.Recorded

end

/-- References are scoped lexically. As long as there are not more problems than are wanted, each
    reference of the program parsed from some tokens ends with the statement of its label in the
    innermost block around it that has one, or fails for want of such a block. The problems are
    those with the form of the program and then one for each reference that has failed; no
    reference is given up. -/
theorem references_scoped {limit maxErrors : Int} {tokens : List Token} {log last : Log}
    {p : Program} (unreached : (parse limit tokens).run maxErrors log = (some p, last)) :
    p.Scoped limit tokens ∧ ∃ faults missing,
      last.problems.toList = log.problems.toList ++ (faults ++ missing) ∧
        (∀ d ∈ faults, d.kind = .grammar) ∧
        missing.Perm ((p.resolution.1.filter Search.hasFailed).map fun x =>
          p.undefinedProblem x.reference) ∧
        ∀ r, Program.unresolvableProblem r ∉ faults ++ missing := by
  obtain ⟨value, problems⟩ := Report.run_eq_some unreached
  have program : (parseStatements limit tokens).1 = p := by
    rw [← value, value_parse]
  rw [problems_parse, program] at problems
  refine ⟨(program ▸ recorded_parseStatements limit tokens).scope, _, _, problems,
    Parser.kind_of_parseStatements, p.resolution_snd, fun r member => ?_⟩
  rcases List.mem_append.1 member with fault | missing
  · cases Parser.kind_of_parseStatements _ fault
  · cases p.kind_of_resolution _ missing

/-- A label of an inner block hides that of the block around it, also before it is declared; a label
    of a block within is none. -/
theorem references_scoped_shadowed : ∃ p last,
    Report.run 100 (parse 2 (Assembly.expanded ⟨"scopes",
        "x: pc = 1 #push pc = :x #push pc = :x x: pc = :y #pop pc = :x y: pc = 2 #pop pc = :y"⟩))
        .empty = (some p, last) ∧
      p.Scoped 2 (Assembly.expanded ⟨"scopes",
        "x: pc = 1 #push pc = :x #push pc = :x x: pc = :y #pop pc = :x y: pc = 2 #pop pc = :y"⟩) ∧
      p.resolution.1.map Search.state =
        [.resolved 0, .resolved 3, .resolved 5, .resolved 0, .failed] := by
  have states : ((parse 2 (Assembly.expanded ⟨"scopes",
      "x: pc = 1 #push pc = :x #push pc = :x x: pc = :y #pop pc = :x y: pc = 2 #pop pc = :y"⟩)).run
      100 .empty).1.map (fun p => p.resolution.1.map Search.state) =
        some [.resolved 0, .resolved 3, .resolved 5, .resolved 0, .failed] := by
    decide +kernel
  obtain ⟨p, parsed, ends⟩ := Option.map_eq_some_iff.1 states
  exact ⟨p, _, Prod.ext parsed rfl, (references_scoped (Prod.ext parsed rfl)).1, ends⟩

end NineBit.Asm

import Mathlib.Data.List.Forall2
import NineBit.Proofs.Asm.Assembling
import NineBit.Proofs.Asm.Pieces

/-!
# Inserting a declaration

A label directly followed by its string or its array may stand at any place of its block at which no
label waits, as long as its name is new there (`Grammar.Stands.move`). It gives the same constant at
each of these places. So the program with it is the program without it and one more statement that
is no code (`Program.Inserts`): the statements behind have moved by one index, and a label means
what it means without the declaration, or the constant (`Program.Inserts.find?_eq`).
-/

namespace NineBit.Asm

namespace Grammar

/-! ## One more label -/

namespace Standing

variable {x y next other : Standing} {piece : Piece} {pieces : List Piece} {l : Label}

theorem Runs.alike (runs : x.Runs pieces next) (runs' : y.Runs pieces other)
    (alike : x.Alike y) : next.Alike other := by
  induction runs generalizing y with
  | nil =>
    cases runs'
    exact alike
  | cons first _ ih =>
    cases runs' with
    | cons first' rest' => exact ih rest' (alike.accepts first first')

/-- The same is open, with one more label. -/
structure Extends (l : Label) (x y : Standing) : Prop where
  alike : x.Alike y
  labels : ∀ m, m ∈ y.labels ↔ m = l ∨ m ∈ x.labels
  new : l ∉ x.labels

theorem mem_labels_concat {known known' : List Label} {m : Label}
    (labels : ∀ m, m ∈ known' ↔ m = l ∨ m ∈ known) (other : Label) :
    other ∈ known' ++ [m] ↔ other = l ∨ other ∈ known ++ [m] := by
  rw [List.mem_append, List.mem_append, labels, or_assoc]

/-- Where one more label is, the piece may stand also without it. -/
theorem Extends.accepts_of (wider : x.Extends l y) (accepts : y.Accepts piece other) :
    ∃ next, x.Accepts piece next ∧ next.Extends l other := by
  obtain ⟨alike, labels, new⟩ := wider
  suffices ∃ next, x.Accepts piece next ∧ (∀ m, m ∈ other.labels ↔ m = l ∨ m ∈ next.labels) ∧
      l ∉ next.labels by
    obtain ⟨next, accepts', labels', new'⟩ := this
    exact ⟨next, accepts', alike.accepts accepts' accepts, labels', new'⟩
  cases accepts with
  | opening => exact ⟨_, .opening x _, labels, new⟩
  | closing inside => exact ⟨_, .closing (alike.outer.symm.trans inside) _, labels, new⟩
  | label free => exact ⟨_, .label (alike.waiting.symm.trans free) _, labels, new⟩
  | plain free => exact ⟨_, .plain (alike.waiting.symm.trans free) _, labels, new⟩
  | @named m _ waits fresh statement =>
    have fresh' : m ∉ x.labels := fun member => fresh ((labels m).2 (.inr member))
    refine ⟨_, .named (alike.waiting.symm.trans waits) fresh' statement,
      mem_labels_concat labels, fun member => ?_⟩
    rcases List.mem_append.1 member with early | same
    · exact new early
    · exact fresh ((labels m).2 (.inl (List.mem_singleton.1 same).symm))

/-- As long as the piece does not declare the label, it may stand also where this is there. -/
theorem Extends.accepts (wider : x.Extends l y) (accepts : x.Accepts piece next)
    (apart : l ∉ next.labels) : ∃ other, y.Accepts piece other ∧ next.Extends l other := by
  obtain ⟨alike, labels, new⟩ := wider
  suffices ∃ other, y.Accepts piece other ∧ ∀ m, m ∈ other.labels ↔ m = l ∨ m ∈ next.labels by
    obtain ⟨other, accepts', labels'⟩ := this
    exact ⟨other, accepts', alike.accepts accepts accepts', labels', apart⟩
  cases accepts with
  | opening => exact ⟨_, .opening y _, labels⟩
  | closing inside => exact ⟨_, .closing (alike.outer.trans inside) _, labels⟩
  | label free => exact ⟨_, .label (alike.waiting.trans free) _, labels⟩
  | plain free => exact ⟨_, .plain (alike.waiting.trans free) _, labels⟩
  | @named m _ waits fresh statement =>
    have fresh' : m ∉ y.labels := by
      intro member
      rcases (labels m).1 member with rfl | early
      · exact apart (List.mem_append_right _ List.mem_cons_self)
      · exact fresh early
    exact ⟨_, .named (alike.waiting.trans waits) fresh' statement, mem_labels_concat labels⟩

theorem Extends.runs_of (wider : x.Extends l y) (runs : y.Runs pieces other) :
    ∃ next, x.Runs pieces next ∧ next.Extends l other := by
  induction runs generalizing x with
  | nil => exact ⟨x, .nil x, wider⟩
  | cons first _ ih =>
    obtain ⟨middle, first', further⟩ := wider.accepts_of first
    obtain ⟨next, rest', ends⟩ := ih further
    exact ⟨next, .cons first' rest', ends⟩

theorem Extends.runs (wider : x.Extends l y) (runs : x.Runs pieces next)
    (apart : l ∉ next.labels) : ∃ other, y.Runs pieces other ∧ next.Extends l other := by
  induction runs generalizing y with
  | nil => exact ⟨y, .nil y, wider⟩
  | cons first rest ih =>
    obtain ⟨middle, first', further⟩ :=
      wider.accepts first fun member => apart (rest.labels_subset member)
    obtain ⟨other, rest', ends⟩ := ih further apart
    exact ⟨other, .cons first' rest', ends⟩

end Standing

/-! ## Places of a declaration -/

/-- Behind these pieces a label waits for its statement. -/
def Pending (pieces : List Piece) : Prop :=
  ∃ earlier token marks, pieces = earlier ++ .label token :: marks ∧
    ∀ mark ∈ marks, mark.isMark = true

/-- Two places of a program, given by what stands before them, are in the same block. -/
def SameBlock (before before' : List Piece) : Prop :=
  ∃ middle, Balanced middle ∧ (before' = before ++ middle ∨ before = before' ++ middle)

open Standing

variable {x y y' z : Standing} {before after before' after' : List Piece} {name : Token}
  {constant : List Token}

/-- Pieces among which no block is opened or closed are balanced. -/
theorem balanced_of_rise {pieces : List Piece} (level : ∀ piece ∈ pieces, piece.rise = 0) :
    Balanced pieces := by
  have flat (pieces : List Piece) : (∀ piece ∈ pieces, piece.rise = 0) → depth pieces = 0 := by
    induction pieces with
    | nil => exact fun _ => rfl
    | cons piece rest ih =>
      intro level
      obtain ⟨first, later⟩ := List.forall_mem_cons.1 level
      rw [depth, first, ih later, Int.add_zero]
  refine ⟨fun before early => ?_, flat pieces level⟩
  exact Int.le_of_eq (flat before fun piece member => level piece (early.subset member)).symm

/-- Where there are only marks and statements, no label waits. -/
theorem not_pending {pieces : List Piece}
    (settled : ∀ piece ∈ pieces, piece.isMark = true ∨ piece.isStatement = true) :
    ¬Pending pieces := by
  rintro ⟨earlier, token, marks, rfl, -⟩
  rcases settled (.label token) (List.mem_append_right _ List.mem_cons_self) with mark | statement
  · cases mark
  · cases statement

theorem free_of_not_pending (runs : initial.Runs before x) (settled : ¬Pending before) :
    x.waiting = none := by
  cases waits : x.waiting with
  | none => rfl
  | some label =>
    obtain ⟨earlier, token, marks, -, same, all, -⟩ := runs.waiting rfl waits
    exact absurd ⟨earlier, token, marks, same, all⟩ settled

theorem SameBlock.path (same : SameBlock before before') (runs : initial.Runs before x)
    (runs' : initial.Runs before' y) : y.path = x.path := by
  obtain ⟨middle, balanced, rfl | rfl⟩ := same
  · obtain ⟨z, first, rest⟩ := runs_append.1 runs'
    have path := (rest.path_eq_iff (first.nested nested_initial)).2 balanced
    exact path.trans (runs.alike first ⟨rfl, rfl, rfl⟩).path
  · obtain ⟨z, first, rest⟩ := runs_append.1 runs
    have path := (rest.path_eq_iff (first.nested nested_initial)).2 balanced
    exact (path.trans (runs'.alike first ⟨rfl, rfl, rfl⟩).path).symm

/-- Nothing is open at the end. -/
def Standing.Closed (x : Standing) : Prop := x.waiting = none ∧ x.outer = []

theorem Standing.Alike.closed (alike : x.Alike y) (closed : x.Closed) : y.Closed :=
  ⟨alike.waiting.trans closed.1, alike.outer.trans closed.2⟩

/-- A declaration stands between some pieces, which are a program with it and without it. -/
structure Stands (name : Token) (constant : List Token) (before after : List Piece)
    (x : Standing) : Prop where
  before : initial.Runs before x
  declared : ∃ y z, x.Runs (Parser.declaration name constant) y ∧ y.Runs after z ∧ z.Closed
  without : ∃ z, x.Runs after z ∧ z.Closed ∧ x.label name ∉ z.labels

theorem widerdeclaration (runs : x.Runs (Parser.declaration name constant) y) :
    x.Extends (x.label name) y := by
  obtain ⟨-, fresh, rfl⟩ := Parser.runs_declaration.1 runs
  refine ⟨⟨rfl, rfl, rfl⟩, fun m => ?_, fresh⟩
  rw [List.mem_append, List.mem_singleton, or_comm]

/-- A declaration of a program can be left out. -/
theorem Arranged.stands
    (arranged : Arranged (before ++ (Parser.declaration name constant ++ after))) :
    ∃ x, Stands name constant before after x := by
  obtain ⟨z, runs, closed⟩ := arranged.runs
  obtain ⟨x, first, rest⟩ := runs_append.1 runs
  obtain ⟨y, declared, last⟩ := runs_append.1 rest
  obtain ⟨w, without, ends⟩ := (widerdeclaration declared).runs_of last
  have alike : z.Alike w := ⟨ends.alike.block.symm, ends.alike.outer.symm, ends.alike.waiting.symm⟩
  exact ⟨x, first, ⟨y, z, declared, last, closed⟩, w, without, alike.closed closed, ends.new⟩

/-- A declaration can be moved to any place of its block at which no label waits. -/
theorem Stands.move (stands : Stands name constant before after x)
    (same : before' ++ after' = before ++ after) (block : SameBlock before before')
    (settled : ¬Pending before') :
    ∃ y, Stands name constant before' after' y ∧ y.path = x.path := by
  obtain ⟨first, -, z, rest, closed, new⟩ := stands
  have runs : initial.Runs (before' ++ after') z := same ▸ runs_append.2 ⟨x, first, rest⟩
  obtain ⟨y, first', rest'⟩ := runs_append.1 runs
  have path := block.path first first'
  have free := free_of_not_pending first' settled
  have label : y.label name = x.label name := congrArg (Label.mk · _) path
  rw [← label] at new
  have declared : y.Runs (Parser.declaration name constant) _ :=
    Parser.runs_declaration.2 ⟨free, fun early => new (rest'.labels_subset early), rfl⟩
  obtain ⟨w, last, ends⟩ := (widerdeclaration declared).runs rest' new
  exact ⟨y, ⟨first', ⟨_, w, declared, last, ends.alike.closed closed⟩, z, rest', closed, new⟩, path⟩

end Grammar

/-! ## One more statement -/

/-- What the statements of a program are, in order. -/
def Program.contents (p : Program) : List Content := p.statements.toList.map Statement.content

/-- Where a statement is found once there is one more at an index. -/
def makeRoom (k i : Nat) : Nat := if i < k then i else i + 1

theorem makeRoom_ne (k i : Nat) : makeRoom k i ≠ k := by
  unfold makeRoom
  split <;> omega

theorem makeRoom_injective (k : Nat) : Function.Injective (makeRoom k) := by
  intro i j same
  unfold makeRoom at same
  split at same <;> split at same <;> omega

/-- Every index but the one of the new statement is that of an old one. -/
theorem exists_makeRoom {k j : Nat} (other : j ≠ k) : ∃ i, makeRoom k i = j := by
  unfold makeRoom
  by_cases below : j < k
  · exact ⟨j, if_pos below⟩
  · exact ⟨j - 1, by rw [if_neg (by omega)]; omega⟩

section
variable {limit : Int} {tokens others : List Token} {p q : Program} {k : Nat} {c : Content}
  {references : List Reference} {l : Label} {i : Nat} {r : Reference}

namespace Program

theorem Recorded.getElem?_statements (recorded : p.Recorded limit tokens) (i : Nat) :
    p.statements[i]? = p.contents[i]?.map (Content.numbered · i) := by
  unfold contents
  rw [List.getElem?_map, Array.getElem?_toList, Option.map_map]
  cases found : p.statements[i]? with
  | none => rfl
  | some s =>
    cases recorded.indexed i s found
    rfl

/-- A label is that of the statement that it names. -/
theorem Recorded.find?_iff (recorded : p.Recorded limit tokens) :
    p.labels.find? l = some i ↔ ∃ c, p.contents[i]? = some c ∧ c.label = some l := by
  rw [recorded.named, recorded.getElem?_statements]
  constructor
  · rintro ⟨s, found, named⟩
    obtain ⟨c, content, rfl⟩ := Option.map_eq_some_iff.1 found
    exact ⟨c, content, named⟩
  · rintro ⟨c, content, named⟩
    exact ⟨_, congrArg (Option.map (Content.numbered · i)) content, named⟩

theorem Recorded.statements_eq (recorded : p.Recorded limit tokens) :
    p.statements.toList = p.contents.zipIdx.map fun entry => entry.1.numbered entry.2 := by
  refine List.ext_getElem? fun i => ?_
  rw [Array.getElem?_toList, recorded.getElem?_statements, List.getElem?_map, List.getElem?_zipIdx,
    Option.map_map, Nat.zero_add]
  rfl

/-- A statement that is found elsewhere in another program does the same there. -/
theorem Recorded.mirrored (recorded : p.Recorded limit tokens) (recorded' : q.Recorded limit others)
    {σ : Nat → Nat} (same : q.contents[σ i]? = p.contents[i]?) {s : Statement}
    (found : p.statements[i]? = some s) :
    ∃ t, q.statements[σ i]? = some t ∧ s.Mirrors id σ t := by
  rw [recorded.getElem?_statements] at found
  obtain ⟨d, content, rfl⟩ := Option.map_eq_some_iff.1 found
  refine ⟨d.numbered (σ i), ?_, rfl, (mapReferences_id_body d.body).symm⟩
  rw [recorded'.getElem?_statements, same, content]
  rfl

/-- One program has what another one has, and one more statement at an index. -/
structure Inserts (k : Nat) (c : Content) (references : List Reference) (p q : Program) :
    Prop where
  contents : ∃ front back, p.contents = front ++ back ∧ q.contents = front ++ c :: back ∧
    front.length = k
  references : ∀ r, r ∈ q.references ↔ r ∈ references ∨ r ∈ p.references

namespace Inserts

theorem getElem?_new (inserts : Inserts k c references p q) : q.contents[k]? = some c := by
  obtain ⟨⟨front, back, -, more, rfl⟩, -⟩ := inserts
  rw [more, List.getElem?_append_right (Nat.le_refl _), Nat.sub_self]
  rfl

theorem getElem?_makeRoom (inserts : Inserts k c references p q) (i : Nat) :
    q.contents[makeRoom k i]? = p.contents[i]? := by
  obtain ⟨⟨front, back, less, more, rfl⟩, -⟩ := inserts
  rw [less, more]
  unfold makeRoom
  split
  · rename_i early
    rw [List.getElem?_append_left early, List.getElem?_append_left early]
  · rename_i late
    have late := Nat.le_of_not_lt late
    rw [List.getElem?_append_right late, List.getElem?_append_right (Nat.le_succ_of_le late),
      Nat.succ_sub late, List.getElem?_cons_succ]

/-- A label means the new statement if that has it, and what it means without it else. -/
theorem find?_eq (inserts : Inserts k c references p q) (recorded : p.Recorded limit tokens)
    (recorded' : q.Recorded limit others) (l : Label) :
    q.labels.find? l =
      if c.label = some l then some k else (p.labels.find? l).map (makeRoom k) := by
  by_cases named : c.label = some l
  · rw [if_pos named]
    exact recorded'.find?_iff.2 ⟨c, inserts.getElem?_new, named⟩
  · rw [if_neg named]
    refine Option.ext fun j => ?_
    rw [recorded'.find?_iff, Option.map_eq_some_iff]
    constructor
    · rintro ⟨d, found, label⟩
      have other : j ≠ k := by
        rintro rfl
        rw [inserts.getElem?_new] at found
        cases found
        exact named label
      obtain ⟨i, rfl⟩ := exists_makeRoom other
      rw [inserts.getElem?_makeRoom] at found
      exact ⟨i, recorded.find?_iff.2 ⟨d, found, label⟩, rfl⟩
    · rintro ⟨i, found, rfl⟩
      obtain ⟨d, found, label⟩ := recorded.find?_iff.1 found
      exact ⟨d, (inserts.getElem?_makeRoom i).trans found, label⟩

/-- Without the new statement its label names none. -/
theorem find?_eq_none (inserts : Inserts k c references p q) (recorded : p.Recorded limit tokens)
    (recorded' : q.Recorded limit others) (named : c.label = some l) :
    p.labels.find? l = none := by
  cases found : p.labels.find? l with
  | none => rfl
  | some i =>
    obtain ⟨d, content, label⟩ := recorded.find?_iff.1 found
    have again : q.labels.find? l = some (makeRoom k i) :=
      recorded'.find?_iff.2 ⟨d, (inserts.getElem?_makeRoom i).trans content, label⟩
    rw [inserts.find?_eq recorded recorded', if_pos named] at again
    exact absurd (Option.some.inj again).symm (makeRoom_ne k i)

end Inserts

/-- Statements do the same with other indices. -/
theorem forall₂_numbered (σ : Nat → Nat) (offset : Nat) : ∀ (contents : List Content) (n : Nat),
    (∀ i, n ≤ i → i < n + contents.length → σ i = i + offset) →
      List.Forall₂ (Statement.Mirrors id σ)
        ((contents.zipIdx n).map fun entry => entry.1.numbered entry.2)
        ((contents.zipIdx (n + offset)).map fun entry => entry.1.numbered entry.2)
  | [], _, _ => .nil
  | c :: rest, n, moves => by
    have first := moves n (Nat.le_refl n) (by simp)
    have later := forall₂_numbered σ offset rest (n + 1) fun i low high =>
      moves i (by omega) (by simp only [List.length_cons]; omega)
    rw [Nat.add_right_comm] at later
    exact .cons ⟨first.symm, (mapReferences_id_body c.body).symm⟩ later

/-- The code among mirrored statements is mirrored. -/
theorem forall₂_code {g : Reference → Reference} {σ : Nat → Nat} {statements more : List Statement}
    (mirrors : List.Forall₂ (Statement.Mirrors g σ) statements more) :
    List.Forall₂ (Statement.Mirrors g σ) (statements.filter (!·.isConstant))
      (more.filter (!·.isConstant)) := by
  refine List.rel_filter (fun s t mirrored => ?_) mirrors
  dsimp only
  rw [mirrored.isConstant]

/-- A constant changes nothing about the code. -/
theorem Inserts.code (inserts : Inserts k c references p q) (recorded : p.Recorded limit tokens)
    (recorded' : q.Recorded limit others) (constant : ∃ literal, c.body = .constant literal) :
    List.Forall₂ (Statement.Mirrors id (makeRoom k)) p.executable q.executable := by
  obtain ⟨⟨front, back, less, more, rfl⟩, -⟩ := inserts
  have early := forall₂_code (forall₂_numbered (makeRoom front.length) 0 front 0
    fun i _ high => if_pos (by omega))
  have late := forall₂_code (forall₂_numbered (makeRoom front.length) 1 back front.length
    fun i low _ => if_neg (by omega))
  have data : (c.numbered front.length).isConstant = true := by
    obtain ⟨literal, body⟩ := constant
    unfold Statement.isConstant Content.numbered
    dsimp only
    rw [body]
  unfold executable
  rw [recorded.statements_eq, recorded'.statements_eq, less, more, List.zipIdx_append,
    List.zipIdx_append, List.zipIdx_cons, Nat.zero_add, List.map_append, List.map_append,
    List.map_cons, List.filter_append, List.filter_append,
    List.filter_cons_of_neg (by rw [data]; decide)]
  exact List.rel_append early late

end Program

end

/-! ## Programs with a declaration -/

namespace Parser

open Grammar

variable {limit : Int} {pieces before after : List Grammar.Piece} {name : Token}
  {constant : List Token} {x y : Standing} {c : Content} {references : List Reference}

/-- A program that is told piece by piece is what its pieces give. -/
theorem parseStatements_of_runs (runs : Standing.initial.Runs pieces y) (closed : y.Closed)
    (formed : ∀ piece ∈ pieces, piece.Formed limit.toNat)
    (acts : ∀ piece ∈ pieces, ∀ token ∈ piece.tokens, Acts token) :
    ∃ s : State, s = pieces.foldl (State.take limit) .initial ∧
      parseStatements limit (pieces.flatMap Piece.tokens) =
        (⟨s.statements, s.labels, s.references.reverse⟩, []) := by
  have initial : State.initial.standing = Standing.initial := rfl
  rw [← initial] at runs
  obtain ⟨reads, clean, standing⟩ := readStatements_eq_foldl runs formed acts
  rw [← standing] at closed
  exact ⟨_, rfl, parseStatements_of_finished reads
    ⟨closed.2, Option.map_eq_none_iff.1 closed.1, clean⟩⟩

/-- What the pieces before and behind a declaration give, with it and without it. -/
theorem foldl_inserts (stands : Stands name constant before after x)
    (formed : ∀ piece ∈ before ++ (declaration name constant ++ after), piece.Formed limit.toNat)
    (acts : ∀ piece ∈ before ++ (declaration name constant ++ after),
      ∀ token ∈ piece.tokens, Acts token)
    (gives : ∀ (t : State) (z : Standing), t.path = x.path →
      t.standing.Runs (declaration name constant) z →
        State.Gives [c] references t ((declaration name constant).foldl (State.take limit) t)) :
    ∃ front back early late, front.length = before.countP Piece.isStatement ∧
      State.Gives (front ++ back) (late ++ early) .initial
        ((before ++ after).foldl (State.take limit) .initial) ∧
      State.Gives (front ++ c :: back) (late ++ references ++ early) .initial
        ((before ++ (declaration name constant ++ after)).foldl (State.take limit) .initial) := by
  obtain ⟨first, ⟨y, z, declared, last, -⟩, w, rest, -⟩ := stands
  obtain ⟨formed₁, formed₂₃⟩ := List.forall_mem_append.1 formed
  obtain ⟨formed₂, formed₃⟩ := List.forall_mem_append.1 formed₂₃
  obtain ⟨acts₁, acts₂₃⟩ := List.forall_mem_append.1 acts
  obtain ⟨acts₂, acts₃⟩ := List.forall_mem_append.1 acts₂₃
  have initial : State.initial.standing = Standing.initial := rfl
  rw [← initial] at first
  obtain ⟨front, early, count, given⟩ := foldl_gives first formed₁ acts₁
  have givesBefore := given _ _ ⟨rfl, rfl, rfl⟩ first
  have standing := (readStatements_eq_foldl first formed₁ acts₁).2.2
  rw [← standing] at declared rest
  have givesHere := gives _ _ (congrArg Standing.path standing) declared
  have standing' := (readStatements_eq_foldl declared formed₂ acts₂).2.2
  obtain ⟨back, late, -, behind⟩ := foldl_gives rest formed₃ acts₃
  have alike := (widerdeclaration declared).alike
  rw [← standing'] at alike last
  refine ⟨front, back, early, late, count, ?_, ?_⟩
  · rw [List.foldl_append]
    exact givesBefore.trans (behind _ _ ⟨rfl, rfl, rfl⟩ rest)
  · rw [List.foldl_append, List.foldl_append]
    exact givesBefore.trans (givesHere.trans (behind _ _ alike last))

/-- With a declaration, a program has one more statement. -/
theorem inserts_of_stands (stands : Stands name constant before after x)
    (formed : ∀ piece ∈ before ++ (declaration name constant ++ after), piece.Formed limit.toNat)
    (acts : ∀ piece ∈ before ++ (declaration name constant ++ after),
      ∀ token ∈ piece.tokens, Acts token)
    (gives : ∀ (t : State) (z : Standing), t.path = x.path →
      t.standing.Runs (declaration name constant) z →
        State.Gives [c] references t ((declaration name constant).foldl (State.take limit) t)) :
    (parseStatements limit ((before ++ after).flatMap Piece.tokens)).2 = [] ∧
      (parseStatements limit
        ((before ++ (declaration name constant ++ after)).flatMap Piece.tokens)).2 = [] ∧
      Program.Inserts (before.countP Piece.isStatement) c references
        (parseStatements limit ((before ++ after).flatMap Piece.tokens)).1
        (parseStatements limit
          ((before ++ (declaration name constant ++ after)).flatMap Piece.tokens)).1 := by
  obtain ⟨front, back, early, late, count, less, more⟩ := foldl_inserts stands formed acts gives
  obtain ⟨first, ⟨y, z, declared, last, closed⟩, w, rest, closed', -⟩ := stands
  obtain ⟨formed₁, formed₂₃⟩ := List.forall_mem_append.1 formed
  obtain ⟨acts₁, acts₂₃⟩ := List.forall_mem_append.1 acts
  obtain ⟨s, folded, parsed⟩ := parseStatements_of_runs
    (Standing.runs_append.2 ⟨x, first, rest⟩) closed'
    (List.forall_mem_append.2 ⟨formed₁, (List.forall_mem_append.1 formed₂₃).2⟩)
    (List.forall_mem_append.2 ⟨acts₁, (List.forall_mem_append.1 acts₂₃).2⟩)
  obtain ⟨t, folded', parsed'⟩ := parseStatements_of_runs
    (Standing.runs_append.2 ⟨x, first, Standing.runs_append.2 ⟨y, declared, last⟩⟩) closed
    formed acts
  rw [← folded] at less
  rw [← folded'] at more
  rw [parsed, parsed']
  refine ⟨rfl, rfl, ⟨front, back, less.contents, more.contents, count⟩, fun r => ?_⟩
  rw [List.mem_reverse, List.mem_reverse, less.references, more.references]
  simp only [List.mem_append]
  tauto

end Parser

end NineBit.Asm

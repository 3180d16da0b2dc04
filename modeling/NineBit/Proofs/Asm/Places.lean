import Mathlib.Data.List.Infix
import Mathlib.Logic.Relation
import NineBit.Proofs.Asm.Statements

/-!
# The places of a program

The parser goes from place to place through the tokens (`Parser.Place`), one statement, label or
mark at a time, whatever problems it meets. A place knows the marks that have opened the blocks
around it. Reading a literal records the references in it, each with the path of the innermost
block (`Parser.State.Refers`), so that a reference has the path of the place that its statement
begins at, and a label that of its own place. Two places have one path exactly if they are in one
block, and the path of one begins with that of another exactly if the block of the latter is around
the former (`Parser.path_prefix_iff`): a block has a higher number than those that were opened
before it in the same block.
-/

namespace NineBit.Asm.Parser

/-! ## References -/

/-- The reference that a token makes in the innermost block. -/
def State.reference (s : State) (word : Token) : Reference :=
  ⟨String.ofList (word.text.toList.drop 1), s.path, word.span⟩

/-- Reading has come from some tokens to what is left of them. It has added problems, and
    references that tokens on the way make in the innermost block. -/
structure State.Refers (s : State) (tokens : List Token) (next : State) (left : List Token) :
    Prop where
  statements : next.statements = s.statements
  labels : next.labels = s.labels
  waiting : next.waiting = s.waiting
  block : next.block = s.block
  outer : next.outer = s.outer
  read : ∃ read, tokens = read ++ left ∧ ∀ r ∈ next.references, r ∈ s.references ∨
    ∃ word ∈ read, word.kind = .reference ∧ r = s.reference word

namespace State.Refers

variable {s middle next : State} {tokens between left : List Token} {token : Token}

theorem path (refers : s.Refers tokens next left) : next.path = s.path := by
  unfold State.path
  rw [refers.block, refers.outer]

theorem suffix (refers : s.Refers tokens next left) : left <:+ tokens := by
  obtain ⟨read, same, -⟩ := refers.read
  exact ⟨read, same.symm⟩

/-- Passing over tokens. -/
theorem skip (faulted : s.Faulted next) (rest : left <:+ tokens) : s.Refers tokens next left := by
  obtain ⟨-, -, faults, demands, rfl⟩ := faulted
  obtain ⟨read, same⟩ := rest
  exact ⟨rfl, rfl, rfl, rfl, rfl, read, same.symm, fun r member => .inl member⟩

theorem trans (first : s.Refers tokens middle between)
    (second : middle.Refers between next left) : s.Refers tokens next left where
  statements := second.statements.trans first.statements
  labels := second.labels.trans first.labels
  waiting := second.waiting.trans first.waiting
  block := second.block.trans first.block
  outer := second.outer.trans first.outer
  read := by
    obtain ⟨read, rfl, old⟩ := first.read
    obtain ⟨later, rfl, new⟩ := second.read
    refine ⟨read ++ later, (List.append_assoc _ _ _).symm, fun r member => ?_⟩
    rcases new r member with before | ⟨word, inside, kind, rfl⟩
    · rcases old r before with before | ⟨word, inside, kind, made⟩
      · exact .inl before
      · exact .inr ⟨word, List.mem_append_left _ inside, kind, made⟩
    · refine .inr ⟨word, List.mem_append_right _ inside, kind, ?_⟩
      unfold State.reference
      rw [first.path]

theorem refer (s : State) {token : Token} (kind : token.kind = .reference) (rest : List Token) :
    s.Refers (token :: rest) (s.refer token).2 rest := by
  refine ⟨rfl, rfl, rfl, rfl, rfl, [token], rfl, fun r member => ?_⟩
  rcases List.mem_cons.1 member with rfl | old
  · exact .inr ⟨token, List.mem_singleton_self _, kind, rfl⟩
  · exact .inl old

end State.Refers

theorem passage_refers : Passage State.Refers where
  pass := .skip
  refer := .refer
  trans := .trans

/-! ## One statement -/

/-- What reading one statement, label or mark does, given its first token and the others. -/
inductive State.Step (s : State) (token : Token) (rest : List Token) :
    State → List Token → Prop where
  /-- A statement that is not well-formed. -/
  | idle {next : State} {left : List Token} (start : token.kind ≠ .blockStart)
      (ends : token.kind ≠ .blockEnd) (refers : s.Refers (token :: rest) next left) :
      Step s token rest next left
  | statement {next : State} {left : List Token} (start : token.kind ≠ .blockStart)
      (ends : token.kind ≠ .blockEnd) (refers : s.Refers (token :: rest) next left) (span : Span)
      (body : Statement.Body) : Step s token rest (next.addStatement span body) left
  | label (kind : token.kind = .label) : Step s token rest (s.awaitStatement token) rest
  | opening (kind : token.kind = .blockStart) : Step s token rest s.openBlock rest
  | closing (kind : token.kind = .blockEnd) : Step s token rest (s.closeBlock token) rest

namespace State.Step

variable {s : State} {token : Token} {rest : List Token}

theorem addAction (start : token.kind ≠ .blockStart) (ends : token.kind ≠ .blockEnd)
    (action : Option Isa.Action) : s.Step token rest (s.addAction token action) rest := by
  have passes : s.Refers (token :: rest) s rest := .skip (.refl s) (List.suffix_cons _ _)
  cases action with
  | some x => exact .statement start ends passes _ _
  | none => exact .idle start ends (.skip (.fault s _ _) (List.suffix_cons _ _))

theorem addMovement {target : Token} {left : List Token} (start : token.kind ≠ .blockStart)
    (ends : token.kind ≠ .blockEnd) (index : Option Literal) (part : SourcePart)
    (refers : s.Refers (token :: rest) part.reading.state left) :
    s.Step token rest (addMovement target index part) left := by
  obtain ⟨_, _, -, -, same⟩ | faulted := State.Faulted.of_addMovement target index part
  · rw [same]
    exact .statement start ends refers _ _
  · exact .idle start ends (refers.trans (.skip faulted (List.suffix_refl _)))

theorem readMovement (limit : Int) (start : token.kind ≠ .blockStart)
    (ends : token.kind ≠ .blockEnd) : s.Step token rest (readMovement limit s token rest).1
      (readMovement limit s token rest).2.rest := by
  generalize becomes : Parser.readMovement limit s token rest = next
  have reads := readsMovement limit s token rest
  rw [becomes] at reads
  cases reads with
  | unsigned what =>
    have index := passage_refers.cons token (passage_refers.readLiteral limit s ⟨token, rest⟩)
    exact .idle start ends (index.trans (.skip (.expected _ _ _) (List.suffix_refl _)))
  | sourceless what left found =>
    have source := passage_refers.source limit s token left
    rw [found] at source
    exact .idle start ends (source.trans (.skip (.expected _ _ _) (List.suffix_refl _)))
  | whole left equals found =>
    have source := passage_refers.source limit s token left
    rw [found] at source
    exact addMovement start ends _ _ source

theorem readStatement (limit : Int) (s : State) (token : Token) (rest : List Token) :
    s.Step token rest (readStatement limit s token rest).1
      (readStatement limit s token rest).2.rest := by
  have passes : s.Refers (token :: rest) s rest := .skip (.refl s) (List.suffix_cons _ _)
  have read := passage_refers.readLiteralFrom limit s token rest
  have other {kind : Token.Kind} (is : token.kind = kind) (start : kind ≠ .blockStart)
      (ends : kind ≠ .blockEnd) : token.kind ≠ .blockStart ∧ token.kind ≠ .blockEnd :=
    ⟨is ▸ start, is ▸ ends⟩
  have reads := readsStatement limit s token rest
  generalize Parser.readStatement limit s token rest = next at reads ⊢
  cases reads with
  | registerAction kind | controlAction kind =>
    obtain ⟨start, ends⟩ := other kind nofun nofun
    exact addAction start ends _
  | condition kind =>
    obtain ⟨start, ends⟩ := other kind nofun nofun
    exact .statement start ends passes _ _
  | label kind => exact .label kind
  | movement kind =>
    obtain ⟨start, ends⟩ := other kind nofun nofun
    exact readMovement limit start ends
  | opening kind => exact .opening kind
  | closing kind => exact .closing kind
  | constant _ kind =>
    obtain ⟨start, ends⟩ := kind.elim (other · nofun nofun) (other · nofun nofun)
    exact .statement start ends read _ _
  | unread _ kind =>
    obtain ⟨start, ends⟩ := kind.elim (other · nofun nofun) (other · nofun nofun)
    exact .idle start ends read
  | unexpected start ends =>
    exact .idle start ends (passes.trans (.skip (.fault s _ _) (List.suffix_refl _)))

end State.Step

/-! ## Places -/

/-- A place between statements, labels and marks: what the parser keeps there, the marks of the
    blocks that are open, innermost first, and the tokens that are left. A mark is known by the
    number of tokens behind it. The outermost block has no mark. -/
structure Place where
  state : State
  marks : List Nat
  rest : List Token

namespace Place

/-- Before all tokens. -/
def start (tokens : List Token) : Place := ⟨.initial, [], tokens⟩

/-- The marks of the blocks that are open behind a token. A mark that closes nothing is passed
    over. -/
def marksBehind (marks : List Nat) (token : Token) (rest : List Token) : List Nat :=
  match token.kind with
  | .blockStart => rest.length :: marks
  | .blockEnd => marks.tail
  | _ => marks

/-- The parser goes from one place to another one. -/
inductive Next (limit : Int) : Place → Place → Prop where
  | read (s : State) (marks : List Nat) (token : Token) (rest : List Token) :
      Next limit ⟨s, marks, token :: rest⟩
        ⟨(readStatement limit s token rest).1, marksBehind marks token rest,
          (readStatement limit s token rest).2.rest⟩

/-- The parser comes to a place. -/
def Reached (limit : Int) (tokens : List Token) : Place → Prop :=
  Relation.ReflTransGen (Next limit) (start tokens)

/-- The path of the innermost block. -/
def path (x : Place) : BlockPath := x.state.path

/-- The reference is written in a statement that begins here. -/
def Writes (limit : Int) (x : Place) (r : Reference) : Prop :=
  ∃ y read word, Next limit x y ∧ x.rest = read ++ y.rest ∧ word ∈ read ∧
    word.kind = .reference ∧ r = x.state.reference word

/-- A label begins here. -/
def Declares (x : Place) (l : Label) : Prop :=
  ∃ token rest, x.rest = token :: rest ∧ token.kind = .label ∧
    l = ⟨x.path, String.ofList token.text.toList.dropLast⟩

variable {limit : Int} {tokens : List Token} {x y z : Place}

theorem rightUnique (limit : Int) : Relator.RightUnique (Next limit) := by
  intro x y z first second
  cases first
  cases second
  rfl

/-- The parser comes to the end of the tokens. -/
theorem reaches_end (limit : Int) (s : State) (tokens : List Token) : ∀ marks : List Nat,
    ∃ last, Relation.ReflTransGen (Next limit) ⟨s, marks, tokens⟩
      ⟨readStatements limit s tokens, last, []⟩ := by
  fun_induction readStatements limit s tokens with
  | case1 s => exact fun marks => ⟨marks, .refl⟩
  | case2 s token rest next ih =>
    intro marks
    obtain ⟨last, later⟩ := ih (marksBehind marks token rest)
    exact ⟨last, .head (.read s marks token rest) later⟩

/-! ## Blocks -/

/-- The numbers of the blocks that are open, innermost first. -/
def numbers (x : Place) : List Nat := (x.state.block :: x.state.outer).map Block.number

/-- The blocks that are open in the outermost one, innermost first, each by its number and its
    mark. -/
structure Has (x : Place) (blocks : List (Nat × Nat)) : Prop where
  numbers : x.numbers = blocks.map Prod.fst ++ [0]
  marks : x.marks = blocks.map Prod.snd

/-- Each block is the one opened last in the block around it. -/
def Nested (x : Place) : Prop :=
  (x.state.block :: x.state.outer).IsChain fun inner around => inner.number = around.children

/-- How going on changes the blocks that are open. -/
inductive Turn (x y : Place) (blocks : List (Nat × Nat)) : Prop where
  | same (there : y.Has blocks)
      (children : y.state.block.children = x.state.block.children)
  | opened (there : y.Has ((x.state.block.children + 1, y.rest.length) :: blocks))
  | closed (block : Nat × Nat) (around : List (Nat × Nat)) (inside : blocks = block :: around)
      (there : y.Has around) (children : y.state.block.children = block.1)

theorem blocks_addStatement (s : State) (span : Span) (body : Statement.Body) :
    (s.addStatement span body).block = s.block ∧ (s.addStatement span body).outer = s.outer := by
  unfold State.addStatement
  dsimp only
  split
  · exact ⟨rfl, rfl⟩
  · split <;> exact ⟨rfl, rfl⟩

theorem blocks_awaitStatement (s : State) (token : Token) :
    (s.awaitStatement token).block = s.block ∧ (s.awaitStatement token).outer = s.outer := by
  unfold State.awaitStatement
  dsimp only
  split <;> exact ⟨rfl, rfl⟩

theorem Next.rest_lt (next : Next limit x y) : y.rest.length < x.rest.length := by
  cases next with
  | read s marks token rest => exact Nat.lt_succ_of_le (readStatement_le limit s token rest)

theorem marksBehind_of_ne {marks : List Nat} {token : Token} {rest : List Token}
    (start : token.kind ≠ .blockStart) (ends : token.kind ≠ .blockEnd) :
    marksBehind marks token rest = marks := by
  unfold marksBehind
  split
  · exact absurd ‹_› start
  · exact absurd ‹_› ends
  · rfl

/-- A place with the same blocks. -/
theorem Turn.of_eq {blocks : List (Nat × Nat)} (here : x.Has blocks)
    (block : y.state.block = x.state.block) (outer : y.state.outer = x.state.outer)
    (marks : y.marks = x.marks) : Turn x y blocks := by
  refine .same ⟨?_, marks.trans here.marks⟩ (congrArg Block.children block)
  rw [← here.numbers, Place.numbers, Place.numbers, block, outer]

theorem Next.turn {blocks : List (Nat × Nat)} (next : Next limit x y) (nested : x.Nested)
    (here : x.Has blocks) : Turn x y blocks := by
  cases next with
  | read s marks token rest =>
    -- What the state becomes decides; the tokens left matter only behind an opening mark.
    generalize left : (readStatement limit s token rest).2.rest = remaining
    generalize becomes : (readStatement limit s token rest).1 = t
    have step := State.Step.readStatement limit s token rest
    rw [left, becomes] at step
    cases step with
    | idle start ends refers =>
      exact .of_eq here refers.block refers.outer (marksBehind_of_ne start ends)
    | statement start ends refers span body =>
      obtain ⟨block, outer⟩ := blocks_addStatement _ span body
      exact .of_eq here (block.trans refers.block) (outer.trans refers.outer)
        (marksBehind_of_ne start ends)
    | label kind =>
      obtain ⟨block, outer⟩ := blocks_awaitStatement s token
      exact .of_eq here block outer (marksBehind_of_ne (by rw [kind]; nofun) (by rw [kind]; nofun))
    | opening kind =>
      refine .opened ⟨?_, ?_⟩
      · exact congrArg (_ :: ·) here.numbers
      · simp only [marksBehind, kind]
        exact congrArg (_ :: ·) here.marks
    | closing kind =>
      have behind : marksBehind marks token rest = marks.tail := by simp only [marksBehind, kind]
      obtain ⟨numbers, same⟩ := here
      cases outer : s.outer with
      | nil =>
        cases blocks with
        | nil =>
          have none : marks = [] := same
          have closed : s.closeBlock token = s.fault .unpairedBlockEnd token.span := by
            simp only [State.closeBlock, outer]
          refine .of_eq ⟨numbers, same⟩ (by rw [closed]; rfl) (by rw [closed]; rfl) ?_
          exact behind.trans (by rw [none]; rfl)
        | cons block around => simp [Place.numbers, outer] at numbers
      | cons around further =>
        have closed : s.closeBlock token = { s with block := around, outer := further } := by
          unfold State.closeBlock
          rw [outer]
        cases blocks with
        | nil => simp [Place.numbers, outer] at numbers
        | cons block others =>
          simp only [Place.numbers, outer, List.map_cons, List.cons_append] at numbers
          obtain ⟨number, tail⟩ := List.cons_eq_cons.1 numbers
          rw [Nested, outer] at nested
          cases nested with
          | cons_cons last rest =>
            refine .closed block others rfl ⟨?_, behind.trans (congrArg List.tail same)⟩ ?_
            · simp only [Place.numbers, closed, List.map_cons]
              exact tail
            · simp only [closed]
              exact last.symm.trans number

theorem Next.nested (next : Next limit x y) (nested : x.Nested) : y.Nested := by
  cases next with
  | read s marks token rest =>
    generalize left : (readStatement limit s token rest).2.rest = remaining
    generalize becomes : (readStatement limit s token rest).1 = t
    have step := State.Step.readStatement limit s token rest
    rw [left, becomes] at step
    cases step with
    | idle start ends refers =>
      simpa only [Nested, refers.block, refers.outer] using nested
    | statement start ends refers span body =>
      rename_i read
      obtain ⟨block, outer⟩ := blocks_addStatement read span body
      simpa only [Nested, block, outer, refers.block, refers.outer] using nested
    | label kind =>
      obtain ⟨block, outer⟩ := blocks_awaitStatement s token
      simpa only [Nested, block, outer] using nested
    | opening kind =>
      refine .cons_cons rfl ?_
      -- The block around the new one has kept its number.
      cases within : s.outer with
      | nil => exact .singleton _
      | cons around further =>
        rw [Nested, within] at nested
        cases nested with
        | cons_cons same rest => exact .cons_cons same rest
    | closing kind =>
      unfold State.closeBlock
      cases outer : s.outer with
      | nil => simpa only [Nested, State.fault, outer] using nested
      | cons around further =>
        rw [Nested, outer] at nested
        cases nested with
        | cons_cons same rest => exact rest

/-- How the blocks of a place stand to those of a later one. Behind the blocks that both have in
    common, a block that the later place has alone was opened later. -/
inductive Fork (x y : Place) : Prop where
  /-- All blocks are still open. -/
  | within (shared inner : List (Nat × Nat)) (here : x.Has shared)
      (there : y.Has (inner ++ shared))
  /-- Some blocks were closed, and the innermost one that is left has counted them. -/
  | around (inner : List (Nat × Nat)) (block : Nat × Nat) (shared : List (Nat × Nat))
      (here : x.Has (inner ++ block :: shared)) (there : y.Has shared)
      (counted : block.1 ≤ y.state.block.children)
  /-- Some blocks were closed and others were opened. -/
  | apart (inner : List (Nat × Nat)) (block : Nat × Nat) (others : List (Nat × Nat))
      (other : Nat × Nat) (shared : List (Nat × Nat)) (here : x.Has (inner ++ block :: shared))
      (there : y.Has (others ++ other :: shared)) (number : block.1 < other.1)
      (mark : other.2 < block.2)

theorem Fork.next (fork : x.Fork y) (next : Next limit y z) (nested : y.Nested)
    (later : ∀ mark ∈ x.marks, y.rest.length ≤ mark) : x.Fork z := by
  cases fork with
  | within shared inner here there =>
    cases next.turn nested there with
    | same there => exact .within shared inner here there
    | opened there => exact .within shared (_ :: inner) here there
    | closed block around inside left children =>
      cases inner with
      | nil =>
        subst inside
        exact .around [] block around here left (Nat.le_of_eq children.symm)
      | cons first inner =>
        obtain ⟨-, rfl⟩ := List.cons_eq_cons.1 inside
        exact .within shared inner here left
  | around inner block shared here there counted =>
    cases next.turn nested there with
    | same there children => exact .around inner block shared here there (children ▸ counted)
    | opened there =>
      refine .apart inner block [] _ shared here there (Nat.lt_succ_of_le counted) ?_
      refine Nat.lt_of_lt_of_le next.rest_lt (later _ ?_)
      rw [here.marks]
      exact List.mem_map_of_mem (List.mem_append_right _ List.mem_cons_self)
    | closed outermost around inside left children =>
      subst inside
      refine .around (inner ++ [block]) outermost around ?_ left (Nat.le_of_eq children.symm)
      rwa [List.append_assoc, List.singleton_append]
  | apart inner block others other shared here there number mark =>
    cases next.turn nested there with
    | same there => exact .apart inner block others other shared here there number mark
    | opened there => exact .apart inner block (_ :: others) other shared here there number mark
    | closed last around inside left children =>
      cases others with
      | nil =>
        obtain ⟨rfl, rfl⟩ := List.cons_eq_cons.1 inside
        exact .around inner block shared here left (children ▸ Nat.le_of_lt number)
      | cons first others =>
        obtain ⟨-, rfl⟩ := List.cons_eq_cons.1 inside
        exact .apart inner block others other shared here left number mark

/-- Lists with different elements before a common end are no ends of each other. -/
theorem not_suffix_of_ne {α : Type} {a b : α} {front others shared : List α} (apart : a ≠ b) :
    ¬front ++ a :: shared <:+ others ++ b :: shared := by
  rintro ⟨more, same⟩
  rw [← List.append_assoc] at same
  obtain ⟨-, heads⟩ := List.append_inj' same rfl
  exact apart (List.cons.inj heads).1

/-- An end of a list that is no shorter than the list is all of it. -/
theorem suffix_append_iff {α : Type} {front shared : List α} :
    front ++ shared <:+ shared ↔ front = [] := by
  constructor
  · intro ends
    have shorter := ends.length_le
    rw [List.length_append] at shorter
    exact List.eq_nil_of_length_eq_zero (by omega)
  · rintro rfl
    exact List.suffix_refl _

/-- Numbers and marks tell the same of two places. -/
theorem Fork.suffix_iff (fork : x.Fork y) :
    (x.numbers <:+ y.numbers ↔ x.marks <:+ y.marks) ∧
      (y.numbers <:+ x.numbers ↔ y.marks <:+ x.marks) := by
  cases fork with
  | within shared inner here there =>
    simp only [here.numbers, here.marks, there.numbers, there.marks, List.suffix_append_self_iff,
      List.map_append, suffix_append_iff, List.map_eq_nil_iff]
    exact ⟨iff_of_true (List.suffix_append _ _) (List.suffix_append _ _), trivial⟩
  | around inner block shared here there =>
    rw [List.append_cons] at here
    generalize inner ++ [block] = closed at here
    simp only [here.numbers, here.marks, there.numbers, there.marks, List.suffix_append_self_iff,
      List.map_append, suffix_append_iff, List.map_eq_nil_iff]
    exact ⟨trivial, iff_of_true (List.suffix_append _ _) (List.suffix_append _ _)⟩
  | apart inner block others other shared here there number mark =>
    simp only [here.numbers, here.marks, there.numbers, there.marks, List.suffix_append_self_iff,
      List.map_append, List.map_cons, not_suffix_of_ne (Nat.ne_of_lt number),
      not_suffix_of_ne (Nat.ne_of_gt number), not_suffix_of_ne (Nat.ne_of_lt mark),
      not_suffix_of_ne (Nat.ne_of_gt mark)]
    exact ⟨trivial, trivial⟩

/-- What holds at every place of a text. -/
structure Sound (x : Place) : Prop where
  blocks : ∃ blocks, x.Has blocks
  nested : x.Nested
  marks : ∀ mark ∈ x.marks, x.rest.length ≤ mark

theorem sound_start (tokens : List Token) : (start tokens).Sound :=
  ⟨⟨[], rfl, rfl⟩, .singleton _, fun _ member => absurd member List.not_mem_nil⟩

theorem Sound.next (sound : x.Sound) (next : Next limit x y) : y.Sound := by
  obtain ⟨⟨blocks, here⟩, nested, marks⟩ := sound
  have fewer := Nat.le_of_lt next.rest_lt
  have kept {mark : Nat} (member : mark ∈ x.marks) : y.rest.length ≤ mark :=
    Nat.le_trans fewer (marks mark member)
  cases next.turn nested here with
  | same there =>
    refine ⟨⟨_, there⟩, next.nested nested, fun mark member => kept ?_⟩
    rwa [here.marks, ← there.marks]
  | opened there =>
    refine ⟨⟨_, there⟩, next.nested nested, fun mark member => ?_⟩
    rw [there.marks, List.map_cons] at member
    rcases List.mem_cons.1 member with rfl | old
    · exact Nat.le_refl _
    · exact kept (here.marks ▸ old)
  | closed block around inside there =>
    refine ⟨⟨_, there⟩, next.nested nested, fun mark member => kept ?_⟩
    rw [here.marks, inside, List.map_cons, ← there.marks]
    exact List.mem_cons_of_mem _ member

theorem Reached.sound (reached : Reached limit tokens x) : x.Sound := by
  induction reached with
  | refl => exact sound_start tokens
  | tail _ next ih => exact ih.next next

theorem Sound.fork (sound : x.Sound) (later : Relation.ReflTransGen (Next limit) x y) :
    x.Fork y ∧ y.Nested ∧ y.rest.length ≤ x.rest.length := by
  induction later with
  | refl =>
    obtain ⟨blocks, here⟩ := sound.blocks
    exact ⟨.within blocks [] here here, sound.nested, Nat.le_refl _⟩
  | tail _ next ih =>
    obtain ⟨fork, nested, fewer⟩ := ih
    refine ⟨fork.next next nested ?_, next.nested nested, ?_⟩
    · exact fun mark member => Nat.le_trans fewer (sound.marks mark member)
    · exact Nat.le_trans (Nat.le_of_lt next.rest_lt) fewer

/-- The path of one place begins with that of another one exactly if the blocks that are open at the
    latter are open at the former. -/
theorem path_prefix_iff (here : Reached limit tokens x) (there : Reached limit tokens y) :
    x.path <+: y.path ↔ x.marks <:+ y.marks := by
  have paths : x.path <+: y.path ↔ x.numbers <:+ y.numbers := List.reverse_prefix
  rw [paths]
  rcases here.total_of_right_unique (rightUnique limit) there with later | earlier
  · exact (here.sound.fork later).1.suffix_iff.1
  · exact (there.sound.fork earlier).1.suffix_iff.2

theorem path_ne_nil (x : Place) : x.path ≠ [] := by
  simp [path, State.path]

/-! ## What has been recorded -/

/-- The reference is written in a statement that begins at one of the places. -/
def Written (limit : Int) (tokens : List Token) (r : Reference) : Prop :=
  ∃ x, Reached limit tokens x ∧ x.Writes limit r

/-- The label begins at one of the places. -/
def Declared (limit : Int) (tokens : List Token) (l : Label) : Prop :=
  ∃ x, Reached limit tokens x ∧ x.Declares l

/-- Every statement carries its own index, and the labels are just those of the statements, each of
    one statement. What has been recorded stands somewhere in the tokens. -/
structure Recorded (limit : Int) (tokens : List Token) (s : State) : Prop where
  indexed : ∀ (id : Nat) (st : Statement), s.statements[id]? = some st → st.id = id
  labels : ∀ (l : Label) (id : Nat),
    (l, id) ∈ s.labels ↔ ∃ st, s.statements[id]? = some st ∧ st.label = some l
  distinct : (s.labels.map Prod.fst).Nodup
  references : ∀ r ∈ s.references, Written limit tokens r
  declared : ∀ l ∈ s.labels.map Prod.fst, Declared limit tokens l
  waiting : ∀ entry ∈ s.waiting, Declared limit tokens entry.1

namespace Recorded

variable {s t : State}

theorem initial : Recorded limit tokens .initial where
  indexed _ _ found := nomatch found
  labels _ _ := ⟨fun member => absurd member List.not_mem_nil, fun ⟨_, found, _⟩ => nomatch found⟩
  distinct := .nil
  references _ member := absurd member List.not_mem_nil
  declared _ member := absurd member List.not_mem_nil
  waiting _ member := absurd member (Option.not_mem_none _)

/-- Nothing has changed but blocks, problems and perhaps references and the label that waits. -/
theorem of_eq (recorded : Recorded limit tokens s) (statements : t.statements = s.statements)
    (labels : t.labels = s.labels)
    (references : ∀ r ∈ t.references, r ∈ s.references ∨ Written limit tokens r)
    (waiting : ∀ entry ∈ t.waiting, entry ∈ s.waiting ∨ Declared limit tokens entry.1) :
    Recorded limit tokens t where
  indexed := statements ▸ recorded.indexed
  labels := by
    rw [labels, statements]
    exact recorded.labels
  distinct := labels ▸ recorded.distinct
  references r member := (references r member).elim (recorded.references r) id
  declared := labels ▸ recorded.declared
  waiting entry member := (waiting entry member).elim (recorded.waiting entry) id

theorem find?_isSome (l : Label) : ∀ table : LabelTable,
    (table.find? l).isSome = true ↔ l ∈ table.map Prod.fst
  | [] => iff_of_false Bool.false_ne_true List.not_mem_nil
  | entry :: rest => by
    have later := find?_isSome l rest
    unfold LabelTable.find? at later ⊢
    rw [List.lookup_cons, List.map_cons, List.mem_cons]
    cases same : l == entry.1 with
    | true => exact iff_of_true rfl (.inl (beq_iff_eq.1 same))
    | false => exact later.trans (or_iff_right (beq_eq_false_iff_ne.1 same)).symm

/-- One more statement, with a label that is not taken or with none. -/
theorem push (recorded : Recorded limit tokens s) (span : Span) (label : Option Label)
    (body : Statement.Body) (fresh : ∀ l ∈ label, l ∉ s.labels.map Prod.fst)
    (declared : ∀ l ∈ label, Declared limit tokens l)
    (statements : t.statements = s.statements.push ⟨s.statements.size, span, label, body⟩)
    (labels : t.labels = s.labels ++ label.toList.map fun l => (l, s.statements.size))
    (references : t.references = s.references) (waiting : t.waiting = none) :
    Recorded limit tokens t where
  indexed id st found := by
    rw [statements, Array.getElem?_push] at found
    split at found
    · cases found
      exact Eq.symm ‹_›
    · exact recorded.indexed id st found
  labels l id := by
    rw [labels, statements, Array.getElem?_push, List.mem_append, recorded.labels]
    split
    · rename_i last
      subst last
      simp
    · rename_i earlier
      simp [Ne.symm earlier]
  distinct := by
    rw [labels, List.map_append, List.map_map]
    refine List.nodup_append.2 ⟨recorded.distinct, ?_, ?_⟩
    · cases label <;> simp
    · rintro l old _ new rfl
      exact fresh l (by simpa using new) old
  references := references ▸ recorded.references
  declared l member := by
    rw [labels, List.map_append, List.map_map] at member
    rcases List.mem_append.1 member with old | new
    · exact recorded.declared l old
    · exact declared l (by simpa using new)
  waiting := by
    rw [waiting]
    exact fun entry member => absurd member (Option.not_mem_none _)

theorem addStatement (recorded : Recorded limit tokens s) (span : Span) (body : Statement.Body) :
    Recorded limit tokens (s.addStatement span body) := by
  have unlabelled {P : Label → Prop} (l : Label) (member : l ∈ none) : P l :=
    absurd member (Option.not_mem_none l)
  unfold State.addStatement
  dsimp only
  split
  · exact recorded.push span none body unlabelled unlabelled rfl (List.append_nil _).symm rfl ‹_›
  · rename_i l token waits
    split
    · exact recorded.push span none body unlabelled unlabelled rfl (List.append_nil _).symm rfl rfl
    · rename_i free
      refine recorded.push span (some l) body ?_ ?_ rfl rfl rfl rfl
      all_goals
        rintro _ ⟨⟩
      · exact fun taken => free ((find?_isSome _ _).2 taken)
      · exact recorded.waiting (l, token) waits

/-- Going on records what stands at the place. -/
theorem next (recorded : Recorded limit tokens x.state) (here : Reached limit tokens x)
    (next : Next limit x y) : Recorded limit tokens y.state := by
  have writes {t : State} {left : List Token} (refers : x.state.Refers x.rest t left)
      (same : y.rest = left) : Recorded limit tokens t := by
    obtain ⟨read, rest, new⟩ := refers.read
    refine recorded.of_eq refers.statements refers.labels (fun r member => ?_)
      (refers.waiting ▸ fun entry member => .inl member)
    refine (new r member).imp id fun ⟨word, inside, kind, made⟩ => ?_
    exact ⟨x, here, y, read, word, next, same ▸ rest, inside, kind, made⟩
  cases next with
  | read s marks token rest =>
    generalize left : (readStatement limit s token rest).2.rest = remaining at writes
    generalize becomes : (readStatement limit s token rest).1 = t
    have step := State.Step.readStatement limit s token rest
    rw [left, becomes] at step
    cases step with
    | idle start ends refers => exact writes refers rfl
    | statement start ends refers span body => exact (writes refers rfl).addStatement span body
    | label kind =>
      have declares (entry : Label × Token)
          (member : entry ∈ (s.awaitStatement token).waiting) :
          Declared limit tokens entry.1 := by
        cases member
        refine ⟨_, here, token, rest, rfl, kind, ?_⟩
        dsimp only
        split <;> rfl
      have same : (s.awaitStatement token).statements = s.statements ∧
          (s.awaitStatement token).labels = s.labels ∧
          (s.awaitStatement token).references = s.references := by
        unfold State.awaitStatement
        dsimp only
        split <;> exact ⟨rfl, rfl, rfl⟩
      exact recorded.of_eq same.1 same.2.1 (fun _ member => .inl (same.2.2 ▸ member))
        fun entry member => .inr (declares entry member)
    | opening kind =>
      exact recorded.of_eq rfl rfl (fun _ member => .inl member) fun _ member => .inl member
    | closing kind =>
      unfold State.closeBlock
      split
      all_goals
        exact recorded.of_eq rfl rfl (fun _ member => .inl member) fun _ member => .inl member

theorem reached (reached : Reached limit tokens x) : Recorded limit tokens x.state := by
  induction reached with
  | refl => exact initial
  | tail here next ih => exact ih.next here next

/-- What the parser has recorded in the end. -/
theorem parsed (limit : Int) (tokens : List Token) :
    Recorded limit tokens ((readStatements limit .initial tokens).atEnd tokens) := by
  obtain ⟨last, ends⟩ := reaches_end limit .initial tokens []
  have recorded : Recorded limit tokens (readStatements limit .initial tokens) := reached ends
  obtain ⟨-, -, faults, demands, same⟩ :=
    State.Faulted.atEnd (readStatements limit .initial tokens) tokens
  rw [same]
  exact recorded.of_eq rfl rfl (fun _ member => .inl member) fun _ member => .inl member

end Recorded

end Place

end NineBit.Asm.Parser

namespace NineBit.Asm

/-- Every reference is written in a block. -/
theorem block_ne_nil {limit : Int} {tokens : List Token} {r : Reference}
    (member : r ∈ (parseStatements limit tokens).1.references) : r.block ≠ [] := by
  have recorded := Parser.Place.Recorded.parsed limit tokens
  obtain ⟨x, -, -, -, -, -, -, -, -, rfl⟩ := recorded.references r (List.mem_reverse.1 member)
  exact x.path_ne_nil

end NineBit.Asm

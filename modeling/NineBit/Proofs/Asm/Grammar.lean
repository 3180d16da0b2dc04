import Mathlib.Data.List.Induction
import NineBit.Asm.Parser

/-!
# The grammar of programs

A program is a row of pieces: marks that open and close blocks, labels, statements, and constants
behind labels. `Sentence` says which rows of tokens are programs, with no mention of how they are
read: the form of each piece (`Piece.Formed`), and how the pieces may stand to each other
(`Arranged`). The latter is also told piece by piece, by what is open and what waits (`Standing`);
both tell the same (`arranged_iff`). The heart of that is when two places of a program are in the
same block: exactly if what stands between them is balanced (`Standing.Runs.path_eq_iff`). A block
that was left is not entered again, since the blocks opened later in the block around it have higher
numbers.
-/

namespace NineBit.Asm

namespace Grammar

/-! ## Literals -/

/-- An optional length mark, whose length is no less than a number. -/
inductive LengthMark (least : Nat) : List Token → Prop where
  | none : LengthMark least []
  | some {mark number : Token} (marks : mark.kind = .arrayLength)
      (numeral : number.kind = .number) (enough : least ≤ Parser.numberValue number.text) :
      LengthMark least [mark, number]

/-- A literal in which no more arrays than there is room for stand in each other. The text of a
    string token has its closing NUL character. -/
inductive IsLiteral : Nat → List Token → Prop where
  | number {room : Nat} {token : Token} (kind : token.kind = .number) : IsLiteral room [token]
  | reference {room : Nat} {token : Token} (kind : token.kind = .reference) : IsLiteral room [token]
  | string {room : Nat} {token : Token} {length : List Token} (kind : token.kind = .string)
      (mark : LengthMark token.text.length length) : IsLiteral room (token :: length)
  | array {room : Nat} {opening closing : Token} {elements : List (List Token)}
      {length : List Token} (opens : opening.kind = .arrayStart)
      (literals : ∀ element ∈ elements, IsLiteral room element)
      (closes : closing.kind = .arrayEnd) (mark : LengthMark elements.length length) :
      IsLiteral (room + 1) (opening :: (elements.flatten ++ closing :: length))

/-- A literal or nothing. -/
def MayBeLiteral (room : Nat) (tokens : List Token) : Prop := tokens = [] ∨ IsLiteral room tokens

/-! ## Statements -/

/-- What may stand behind an equals sign. -/
inductive IsSource (room : Nat) : List Token → Prop where
  | location {token : Token} {index : List Token} {source : Isa.Source}
      (kind : token.kind = .location) (literal : MayBeLiteral room index)
      (named : source.name = Parser.locationName token.text !index.isEmpty) :
      IsSource room (token :: index)
  | literal {tokens : List Token} (literal : IsLiteral room tokens) : IsSource room tokens

/-- A statement that is code. -/
inductive IsStatement (room : Nat) : List Token → Prop where
  | registerAction {token : Token} (kind : token.kind = .registerAction) : IsStatement room [token]
  | condition {token : Token} (kind : token.kind = .condition) : IsStatement room [token]
  | action {token : Token} (kind : token.kind = .action) : IsStatement room [token]
  | movement {target sign : Token} {index source : List Token} {destination : Isa.Destination}
      (kind : target.kind = .location) (literal : MayBeLiteral room index)
      (named : destination.name = Parser.locationName target.text !index.isEmpty)
      (equals : sign.kind = .movement) (sources : IsSource room source) :
      IsStatement room (target :: (index ++ sign :: source))

/-- A string or an array. -/
def IsConstant (room : Nat) (tokens : List Token) : Prop :=
  IsLiteral room tokens ∧
    ∃ token, tokens.head? = some token ∧ (token.kind = .string ∨ token.kind = .arrayStart)

/-! ## Programs -/

/-- A piece of a program. -/
inductive Piece where
  | opening (token : Token)
  | closing (token : Token)
  | label (token : Token)
  | statement (tokens : List Token)
  | constant (tokens : List Token)

namespace Piece

/-- The tokens of a piece. -/
def tokens : Piece → List Token
  | opening token | closing token | label token => [token]
  | statement tokens | constant tokens => tokens

/-- The tokens of a piece have its form. -/
def Formed (room : Nat) : Piece → Prop
  | opening token => token.kind = .blockStart
  | closing token => token.kind = .blockEnd
  | label token => token.kind = .label
  | statement tokens => IsStatement room tokens
  | constant tokens => IsConstant room tokens

/-- The piece opens or closes a block. -/
def isMark : Piece → Bool
  | opening _ | closing _ => true
  | _ => false

/-- The piece is something that a label may name. -/
def isStatement : Piece → Bool
  | statement _ | constant _ => true
  | _ => false

/-- How many more blocks are open behind a piece. -/
def rise : Piece → Int
  | opening _ => 1
  | closing _ => -1
  | _ => 0

theorem isMark_of_isStatement {piece : Piece} (statement : piece.isStatement = true) :
    piece.isMark = false := by
  cases piece with
  | statement | constant => rfl
  | opening | closing | label => cases statement

theorem rise_of_isStatement {piece : Piece} (statement : piece.isStatement = true) :
    piece.rise = 0 := by
  cases piece with
  | statement | constant => rfl
  | opening | closing | label => cases statement

end Piece

/-- How many more blocks are open behind some pieces. -/
def depth : List Piece → Int
  | [] => 0
  | piece :: rest => piece.rise + depth rest

/-- No more blocks are closed than have been opened before, and in the end as many. -/
def Balanced (pieces : List Piece) : Prop :=
  (∀ before, before <+: pieces → 0 ≤ depth before) ∧ depth pieces = 0

/-- The name that a label token declares. -/
def labelName (token : Token) : String := String.ofList token.text.toList.dropLast

/-- How the pieces of a program stand to each other. -/
structure Arranged (pieces : List Piece) : Prop where
  balanced : Balanced pieces
  /-- Behind a label there are marks and then a statement. -/
  labels : ∀ before token after, pieces = before ++ .label token :: after →
    ∃ marks statement rest, after = marks ++ statement :: rest ∧
      (∀ mark ∈ marks, mark.isMark = true) ∧ statement.isStatement = true
  /-- Before a constant there are marks and before them a label. -/
  constants : ∀ before tokens after, pieces = before ++ .constant tokens :: after →
    ∃ earlier token marks, before = earlier ++ .label token :: marks ∧
      ∀ mark ∈ marks, mark.isMark = true
  /-- Two labels with a name are not in one block. -/
  distinct : ∀ before first middle second after,
    pieces = before ++ .label first :: (middle ++ .label second :: after) →
    labelName first = labelName second → ¬Balanced middle

/-- The tokens make a program in which no more arrays than there is room for stand in each other. -/
def Sentence (room : Nat) (tokens : List Token) : Prop :=
  ∃ pieces : List Piece, tokens = pieces.flatMap Piece.tokens ∧
    (∀ piece ∈ pieces, piece.Formed room) ∧ Arranged pieces

/-! ## Piece by piece -/

/-- What pieces leave open: the innermost block and those around it, innermost first, the label that
    waits for its statement, and the labels that have theirs. -/
structure Standing where
  block : Parser.Block
  outer : List Parser.Block
  waiting : Option Label
  labels : List Label

namespace Standing

/-- Before any piece. -/
def initial : Standing := ⟨⟨0, 0⟩, [], none, []⟩

/-- The path of the innermost block. -/
def path (x : Standing) : BlockPath := ((x.block :: x.outer).map Parser.Block.number).reverse

/-- Another block is open. -/
def opened (x : Standing) : Standing :=
  { x with
    block := ⟨x.block.children + 1, 0⟩
    outer := { x.block with children := x.block.children + 1 } :: x.outer }

/-- The label that a token declares here. -/
def label (x : Standing) (token : Token) : Label := ⟨x.path, labelName token⟩

/-- The next piece may stand here. -/
inductive Accepts : Standing → Piece → Standing → Prop where
  | opening (x : Standing) (token : Token) : Accepts x (.opening token) x.opened
  | closing {x : Standing} {block : Parser.Block} {outer : List Parser.Block}
      (inside : x.outer = block :: outer) (token : Token) :
      Accepts x (.closing token) { x with block := block, outer := outer }
  | label {x : Standing} (free : x.waiting = none) (token : Token) :
      Accepts x (.label token) { x with waiting := some (x.label token) }
  | plain {x : Standing} (free : x.waiting = none) (tokens : List Token) :
      Accepts x (.statement tokens) x
  | named {x : Standing} {label : Label} {piece : Piece} (waits : x.waiting = some label)
      (fresh : label ∉ x.labels) (statement : piece.isStatement = true) :
      Accepts x piece { x with waiting := none, labels := x.labels ++ [label] }

/-- The next pieces may stand here. -/
inductive Runs : Standing → List Piece → Standing → Prop where
  | nil (x : Standing) : Runs x [] x
  | cons {x y z : Standing} {piece : Piece} {pieces : List Piece} (first : x.Accepts piece y)
      (rest : Runs y pieces z) : Runs x (piece :: pieces) z

variable {x y z : Standing} {piece : Piece} {pieces more : List Piece}

theorem runs_append :
    x.Runs (pieces ++ more) z ↔ ∃ y, x.Runs pieces y ∧ y.Runs more z := by
  induction pieces generalizing x with
  | nil =>
    refine ⟨fun runs => ⟨x, .nil x, runs⟩, ?_⟩
    rintro ⟨_, ⟨⟩, runs⟩
    exact runs
  | cons piece pieces ih =>
    constructor
    · rintro (_ | ⟨first, rest⟩)
      obtain ⟨y, before, after⟩ := ih.1 rest
      exact ⟨y, .cons first before, after⟩
    · rintro ⟨y, _ | ⟨first, before⟩, after⟩
      exact .cons first (ih.2 ⟨y, before, after⟩)

theorem runs_singleton : x.Runs [piece] y ↔ x.Accepts piece y := by
  constructor
  · rintro (_ | ⟨first, _ | _⟩)
    exact first
  · exact fun first => .cons first (.nil y)

theorem runs_concat : x.Runs (pieces ++ [piece]) z ↔ ∃ y, x.Runs pieces y ∧ y.Accepts piece z := by
  simp only [runs_append, runs_singleton]

/-! ## Blocks -/

theorem depth_append (pieces more : List Piece) :
    depth (pieces ++ more) = depth pieces + depth more := by
  induction pieces with
  | nil => exact (Int.zero_add _).symm
  | cons piece rest ih =>
    simp only [List.cons_append, depth, ih]
    omega

theorem depth_singleton (piece : Piece) : depth [piece] = piece.rise := by
  simp only [depth, Int.add_zero]

/-- As many blocks are open as have been opened and not closed. -/
theorem Accepts.length_outer (accepts : x.Accepts piece y) :
    (y.outer.length : Int) = x.outer.length + piece.rise := by
  cases accepts with
  | opening => simp [opened, Piece.rise]
  | closing inside =>
    simp only [inside, List.length_cons, Piece.rise]
    omega
  | label | plain => simp [Piece.rise]
  | named waits fresh statement => simp [Piece.rise_of_isStatement statement]

theorem Runs.length_outer (runs : x.Runs pieces y) :
    (y.outer.length : Int) = x.outer.length + depth pieces := by
  induction runs with
  | nil => simp [depth]
  | cons first rest ih =>
    rw [ih, first.length_outer, ← List.singleton_append, depth_append, depth_singleton]
    omega

/-- Each block is the one opened last in the block around it. -/
def Nested (x : Standing) : Prop :=
  (x.block :: x.outer).IsChain fun inner around => inner.number = around.children

theorem Accepts.nested (accepts : x.Accepts piece y) (nested : x.Nested) : y.Nested := by
  cases accepts with
  | opening =>
    refine .cons_cons rfl ?_
    -- The block around the new one has kept its number.
    cases within : x.outer with
    | nil => exact .singleton _
    | cons around further =>
      rw [Nested, within] at nested
      cases nested with
      | cons_cons same rest => exact .cons_cons same rest
  | closing inside =>
    rw [Nested, inside] at nested
    cases nested with
    | cons_cons same rest => exact rest
  | label | plain | named => exact nested

theorem Runs.nested (runs : x.Runs pieces y) (nested : x.Nested) : y.Nested := by
  induction runs with
  | nil => exact nested
  | cons first rest ih => exact ih (first.nested nested)

theorem nested_initial : initial.Nested := .singleton _

/-- A list of numbers is above another one: it has the higher number at the first place where they
    differ, which both have. -/
def Beyond (low high : List Nat) : Prop :=
  ∃ common p after q rest, low = common ++ p :: after ∧ high = common ++ q :: rest ∧ p < q

theorem Beyond.append {low high : List Nat} (beyond : Beyond low high) (more : List Nat) :
    Beyond low (high ++ more) := by
  obtain ⟨common, p, after, q, rest, below, above, lt⟩ := beyond
  refine ⟨common, p, after, q, rest ++ more, below, ?_, lt⟩
  rw [above, List.append_assoc, List.cons_append]

/-- The last number falls away, and the one before it rises. -/
theorem Beyond.carry {low front : List Nat} {k c : Nat} (beyond : Beyond low (front ++ [k, c])) :
    Beyond low (front ++ [k + 1]) := by
  obtain ⟨common, p, after, q, rest, below, above, lt⟩ := beyond
  rcases List.append_eq_append_iff.1 above with ⟨between, longer, tail⟩ | ⟨between, shorter, tail⟩
  · match between with
    | [] =>
      obtain ⟨rfl, -⟩ := List.cons_eq_cons.1 tail
      refine ⟨front, p, after, k + 1, [], ?_, rfl, by omega⟩
      rw [below, longer, List.append_nil]
    | [number] =>
      obtain ⟨rfl, -⟩ := List.cons_eq_cons.1 tail
      refine ⟨front, k, p :: after, k + 1, [], ?_, rfl, by omega⟩
      rw [below, longer, List.append_assoc, List.singleton_append]
    | _ :: _ :: _ :: _ => simp at tail
    | [_, _] => simp at tail
  · cases between with
    | nil =>
      obtain ⟨rfl, -⟩ := List.cons_eq_cons.1 tail
      refine ⟨common, p, after, q + 1, [], below, ?_, by omega⟩
      rw [shorter, List.append_nil]
    | cons number between =>
      obtain ⟨rfl, -⟩ := List.cons_eq_cons.1 tail
      refine ⟨common, p, after, q, between ++ [k + 1], below, ?_, lt⟩
      rw [shorter, List.append_assoc, List.cons_append]

theorem not_beyond_append {low : List Nat} {more : List Nat} : ¬Beyond low (low ++ more) := by
  rintro ⟨common, p, after, q, rest, below, above, lt⟩
  rw [below, List.append_assoc, List.append_cancel_left_eq] at above
  obtain ⟨rfl, -⟩ := List.cons_eq_cons.1 above
  omega

/-- The path of the innermost block, and the number of the block that would be opened next in it. It
    rises with every mark. -/
def clock (x : Standing) : List Nat := x.path ++ [x.block.children + 1]

theorem path_opened (x : Standing) : x.opened.path = x.clock := by
  simp [path, clock, opened]

theorem clock_closing {block : Parser.Block} {outer : List Parser.Block} (nested : x.Nested)
    (inside : x.outer = block :: outer) :
    ∃ front, x.path = front ++ [x.block.number] ∧
      { x with block := block, outer := outer }.clock = front ++ [x.block.number + 1] := by
  rw [Nested, inside] at nested
  cases nested with
  | cons_cons same rest =>
    refine ⟨({ x with block := block, outer := outer } : Standing).path, ?_, ?_⟩
    · simp [path, inside]
    · rw [clock, same]

theorem Accepts.beyond {low : List Nat} (accepts : x.Accepts piece y) (nested : x.Nested)
    (beyond : Beyond low x.clock) : Beyond low y.clock := by
  cases accepts with
  | opening =>
    rw [clock, path_opened]
    exact beyond.append _
  | closing inside =>
    obtain ⟨front, path, closed⟩ := clock_closing nested inside
    rw [clock, path, List.append_assoc] at beyond
    rw [closed]
    exact beyond.carry
  | label | plain | named => exact beyond

/-- The block that was innermost at first is still open, with as many blocks in it as pieces have
    opened there; or it was closed, and every later path is above its path. -/
inductive Since (x : Standing) (pieces : List Piece) (y : Standing) : Prop where
  | within (inner : List Parser.Block) (base : Parser.Block)
      (blocks : y.block :: y.outer = inner ++ base :: x.outer)
      (number : base.number = x.block.number) (length : (inner.length : Int) = depth pieces)
      (above : ∀ before, before <+: pieces → 0 ≤ depth before)
  | beyond (beyond : Beyond x.path y.clock)
      (below : ¬∀ before, before <+: pieces → 0 ≤ depth before)

theorem path_of_blocks {base : Parser.Block} (blocks : y.block :: y.outer = base :: x.outer)
    (number : base.number = x.block.number) : y.path = x.path := by
  simp only [path, blocks, List.map_cons, number]

theorem above_concat : (∀ before, before <+: pieces ++ [piece] → 0 ≤ depth before) ↔
    (∀ before, before <+: pieces → 0 ≤ depth before) ∧ 0 ≤ depth (pieces ++ [piece]) := by
  simp only [List.prefix_concat_iff, forall_eq_or_imp]
  exact and_comm

theorem Since.concat (since : x.Since pieces y) (nested : y.Nested)
    (accepts : y.Accepts piece z) : x.Since (pieces ++ [piece]) z := by
  have deeper : depth (pieces ++ [piece]) = depth pieces + piece.rise := by
    rw [depth_append, depth_singleton]
  cases since with
  | beyond beyond below =>
    exact .beyond (accepts.beyond nested beyond) fun above => below (above_concat.1 above).1
  | within inner base blocks number length above =>
    have stays (level : piece.rise = 0) (same : z.block :: z.outer = y.block :: y.outer) :
        x.Since (pieces ++ [piece]) z :=
      .within inner base (same.trans blocks) number (by omega) (above_concat.2 ⟨above, by omega⟩)
    cases accepts with
    | label free token | plain free token => exact stays rfl rfl
    | named waits fresh statement => exact stays (Piece.rise_of_isStatement statement) rfl
    | opening =>
      have rises : depth (pieces ++ [.opening _]) = depth pieces + 1 := deeper
      cases inner with
      | nil =>
        obtain ⟨same, around⟩ := List.cons_eq_cons.1 blocks
        refine .within [⟨y.block.children + 1, 0⟩] { base with children := base.children + 1 } ?_
          number ?_ (above_concat.2 ⟨above, ?_⟩)
        · simp only [opened, same, around, List.cons_append, List.nil_append]
        all_goals simp only [List.length_nil, List.length_singleton] at length ⊢; omega
      | cons innermost inner =>
        obtain ⟨same, around⟩ := List.cons_eq_cons.1 blocks
        refine .within (⟨y.block.children + 1, 0⟩ ::
            { innermost with children := innermost.children + 1 } :: inner) base ?_
          number ?_ (above_concat.2 ⟨above, ?_⟩)
        · simp only [opened, same, around, List.cons_append, List.append_eq]
        all_goals simp only [List.length_cons] at length ⊢; omega
    | closing inside token =>
      have falls : depth (pieces ++ [.closing token]) = depth pieces - 1 := deeper
      cases inner with
      | nil =>
        obtain ⟨same, around⟩ := List.cons_eq_cons.1 blocks
        obtain ⟨front, path, closed⟩ := clock_closing nested inside
        refine .beyond ?_ fun all => ?_
        · rw [closed]
          refine ⟨front, y.block.number, [], y.block.number + 1, [], ?_, rfl, by omega⟩
          rw [← path, path_of_blocks blocks number]
        · have last := (above_concat.1 all).2
          rw [List.length_nil] at length
          omega
      | cons innermost inner =>
        obtain ⟨-, around⟩ := List.cons_eq_cons.1 blocks
        have shorter : (inner.length : Int) + 1 = depth pieces := by
          rw [← length, List.length_cons]
          omega
        exact .within inner base (inside.symm.trans around) number (by omega)
          (above_concat.2 ⟨above, by omega⟩)

theorem Runs.since (runs : x.Runs pieces y) (nested : x.Nested) : x.Since pieces y := by
  induction pieces using List.reverseRecOn generalizing y with
  | nil =>
    cases runs
    refine .within [] x.block rfl rfl rfl ?_
    rintro before ⟨after, nothing⟩
    rw [(List.append_eq_nil_iff.1 nothing).1]
    exact Int.le_refl 0
  | append_singleton pieces piece ih =>
    obtain ⟨middle, first, last⟩ := runs_concat.1 runs
    exact (ih first).concat (first.nested nested) last

/-- Two places are in the same block exactly if what stands between them is balanced. -/
theorem Runs.path_eq_iff (runs : x.Runs pieces y) (nested : x.Nested) :
    y.path = x.path ↔ Balanced pieces := by
  cases runs.since nested with
  | within inner base blocks number length above =>
    constructor
    · intro same
      refine ⟨above, ?_⟩
      have lengths := congrArg List.length same
      simp only [path, blocks, List.length_reverse, List.length_map, List.length_append,
        List.length_cons] at lengths
      omega
    · intro balanced
      have none : inner = [] := by
        rw [balanced.2] at length
        exact List.eq_nil_of_length_eq_zero (by omega)
      rw [none, List.nil_append] at blocks
      exact path_of_blocks blocks number
  | beyond beyond below =>
    refine ⟨fun same => ?_, fun balanced => absurd balanced.1 below⟩
    rw [clock, same] at beyond
    exact (not_beyond_append beyond).elim

/-! ## Labels -/

/-- A label waits. -/
def labelled (x : Standing) (token : Token) : Standing := { x with waiting := some (x.label token) }

theorem accepts_label {token : Token} :
    x.Accepts (.label token) y ↔ x.waiting = none ∧ y = x.labelled token := by
  constructor
  · intro accepts
    cases accepts with
    | label free => exact ⟨free, rfl⟩
    | named waits fresh statement => cases statement
  · rintro ⟨free, rfl⟩
    exact .label free token

/-- A run through a label. -/
theorem runs_label {token : Token} : x.Runs (pieces ++ .label token :: more) z ↔
    ∃ y, x.Runs pieces y ∧ y.waiting = none ∧ (y.labelled token).Runs more z := by
  rw [runs_append]
  constructor
  · rintro ⟨y, before, _ | ⟨first, rest⟩⟩
    obtain ⟨free, rfl⟩ := accepts_label.1 first
    exact ⟨y, before, free, rest⟩
  · rintro ⟨y, before, free, rest⟩
    exact ⟨y, before, .cons (.label free token) rest⟩

theorem Runs.labels_subset (runs : x.Runs pieces y) : x.labels ⊆ y.labels := by
  induction runs with
  | nil => exact List.Subset.refl _
  | cons first rest ih =>
    cases first with
    | named => exact List.Subset.trans (List.subset_append_left _ _) ih
    | opening | closing | label | plain => exact ih

/-- A label that waits gets its statement. -/
theorem Runs.settles {label : Label} (runs : x.Runs pieces y) (waits : x.waiting = some label)
    (free : y.waiting = none) : label ∈ y.labels ∧ ∃ marks statement rest,
      pieces = marks ++ statement :: rest ∧ (∀ mark ∈ marks, mark.isMark = true) ∧
        statement.isStatement = true := by
  induction runs with
  | nil =>
    rw [waits] at free
    cases free
  | @cons x y z piece pieces first rest ih =>
    have skips (mark : piece.isMark = true) (same : y.waiting = x.waiting) :
        label ∈ z.labels ∧ ∃ marks statement rest,
          piece :: pieces = marks ++ statement :: rest ∧
            (∀ mark ∈ marks, mark.isMark = true) ∧ statement.isStatement = true := by
      obtain ⟨member, marks, statement, rest, pieces, all, kind⟩ := ih (same.trans waits) free
      refine ⟨member, piece :: marks, statement, rest, by rw [pieces, List.cons_append], ?_, kind⟩
      simp only [List.mem_cons, forall_eq_or_imp]
      exact ⟨mark, all⟩
    cases first with
    | opening | closing => exact skips rfl rfl
    | label none | plain none =>
      rw [waits] at none
      cases none
    | named waiting fresh statement =>
      rw [waits] at waiting
      cases waiting
      refine ⟨rest.labels_subset (List.mem_append_right _ List.mem_cons_self), [], piece, pieces,
        rfl, ?_, statement⟩
      exact fun _ member => absurd member List.not_mem_nil

/-- A label that is taken waits for ever. -/
theorem Runs.waits_for_ever {label : Label} (runs : x.Runs pieces y)
    (waits : x.waiting = some label) (taken : label ∈ x.labels) : y.waiting = some label := by
  induction runs with
  | nil => exact waits
  | cons first rest ih =>
    cases first with
    | opening | closing => exact ih waits taken
    | label none | plain none =>
      rw [waits] at none
      cases none
    | named waiting fresh =>
      rw [waits] at waiting
      cases waiting
      exact absurd taken fresh

/-- Marks move no label. -/
theorem Runs.of_marks (runs : x.Runs pieces y) (marks : ∀ mark ∈ pieces, mark.isMark = true) :
    y.waiting = x.waiting ∧ y.labels = x.labels := by
  induction runs with
  | nil => exact ⟨rfl, rfl⟩
  | cons first rest ih =>
    simp only [List.mem_cons, forall_eq_or_imp] at marks
    have later := ih marks.2
    cases first with
    | opening | closing => exact later
    | label | plain => exact absurd marks.1 Bool.false_ne_true
    | named waits fresh statement =>
      rw [Piece.isMark_of_isStatement statement] at marks
      exact absurd marks.1 Bool.false_ne_true

/-- Where a label that waits was declared: only marks stand behind it. -/
theorem Runs.waiting {label : Label} (runs : x.Runs pieces y) (free : x.waiting = none)
    (waits : y.waiting = some label) : ∃ before token marks z,
      pieces = before ++ .label token :: marks ∧ (∀ mark ∈ marks, mark.isMark = true) ∧
        x.Runs before z ∧ (z.labelled token).Runs marks y ∧ label = z.label token := by
  induction pieces using List.reverseRecOn generalizing y with
  | nil =>
    cases runs
    rw [free] at waits
    cases waits
  | append_singleton pieces piece ih =>
    obtain ⟨middle, first, last⟩ := runs_concat.1 runs
    have skips (mark : piece.isMark = true) (same : middle.waiting = some label) :
        ∃ before token marks z, pieces ++ [piece] = before ++ .label token :: marks ∧
          (∀ mark ∈ marks, mark.isMark = true) ∧ x.Runs before z ∧
            (z.labelled token).Runs marks y ∧ label = z.label token := by
      obtain ⟨before, token, marks, z, rfl, all, start, rest, declared⟩ := ih first same
      refine ⟨before, token, marks ++ [piece], z, ?_, ?_, start, ?_, declared⟩
      · rw [List.append_assoc, List.cons_append]
      · simp only [List.mem_append, List.mem_singleton]
        rintro other (member | rfl)
        · exact all other member
        · exact mark
      · exact runs_concat.2 ⟨middle, rest, last⟩
    cases last with
    | opening | closing => exact skips rfl waits
    | label none token =>
      cases waits
      exact ⟨pieces, token, [], middle, rfl, fun _ member => absurd member List.not_mem_nil, first,
        .nil _, rfl⟩
    | plain none =>
      rw [none] at waits
      cases waits
    | named => cases waits

/-- Where a label was declared that has its statement. -/
theorem Runs.mem_labels {label : Label} (runs : x.Runs pieces y) (free : x.waiting = none)
    (none : x.labels = []) (member : label ∈ y.labels) : ∃ before token after z,
      pieces = before ++ .label token :: after ∧ x.Runs before z ∧
        (z.labelled token).Runs after y ∧ label = z.label token := by
  induction pieces using List.reverseRecOn generalizing y with
  | nil =>
    cases runs
    rw [none] at member
    cases member
  | append_singleton pieces piece ih =>
    obtain ⟨middle, first, last⟩ := runs_concat.1 runs
    have earlier (taken : label ∈ middle.labels) : ∃ before token after z,
        pieces ++ [piece] = before ++ .label token :: after ∧ x.Runs before z ∧
          (z.labelled token).Runs after y ∧ label = z.label token := by
      obtain ⟨before, token, after, z, rfl, start, rest, declared⟩ := ih first taken
      refine ⟨before, token, after ++ [piece], z, ?_, start, ?_, declared⟩
      · rw [List.append_assoc, List.cons_append]
      · exact runs_concat.2 ⟨middle, rest, last⟩
    cases last with
    | opening | closing | label | plain => exact earlier member
    | named waits fresh statement =>
      rcases List.mem_append.1 member with taken | new
      · exact earlier taken
      · cases List.mem_singleton.1 new
        obtain ⟨before, token, marks, z, rfl, -, start, rest, declared⟩ := first.waiting free waits
        refine ⟨before, token, marks ++ [piece], z, ?_, start, ?_, declared⟩
        · rw [List.append_assoc, List.cons_append]
        · exact runs_concat.2 ⟨middle, rest, .named waits fresh statement⟩

end Standing

open Standing

variable {pieces : List Piece}

/-- What is behind some marks is the same however they are told from it. -/
theorem first_of_marks {marks others rest more : List Piece} {piece other : Piece}
    (same : marks ++ piece :: rest = others ++ other :: more)
    (all : ∀ mark ∈ marks, mark.isMark = true) (none : piece.isMark = false)
    (all' : ∀ mark ∈ others, mark.isMark = true) (none' : other.isMark = false) :
    piece = other := by
  have found {marks : List Piece} {piece : Piece} (rest : List Piece)
      (all : ∀ mark ∈ marks, mark.isMark = true) (none : piece.isMark = false) :
      (marks ++ piece :: rest).find? (fun piece => !piece.isMark) = some piece := by
    refine List.find?_eq_some_iff_append.2 ⟨by rw [none]; rfl, marks, rest, rfl, ?_⟩
    exact fun mark member => by rw [all mark member]; rfl
  have first := found rest all none
  rw [same, found more all' none'] at first
  exact (Option.some.inj first).symm

/-- A program that is told piece by piece is arranged as a whole. -/
theorem Arranged.of_runs {y : Standing} (runs : initial.Runs pieces y) (free : y.waiting = none)
    (closed : y.outer = []) : Arranged pieces where
  balanced := by
    constructor
    · rintro before ⟨after, rfl⟩
      obtain ⟨middle, first, -⟩ := runs_append.1 runs
      have levels := first.length_outer
      simp only [initial, List.length_nil] at levels
      omega
    · have levels := runs.length_outer
      simp only [initial, closed, List.length_nil] at levels
      omega
  labels before token after same := by
    subst same
    obtain ⟨middle, -, -, rest⟩ := runs_label.1 runs
    exact (rest.settles rfl free).2
  constants before tokens after same := by
    subst same
    obtain ⟨middle, first, _ | ⟨accepts, -⟩⟩ := runs_append.1 runs
    cases accepts with
    | named waits =>
      obtain ⟨earlier, token, marks, -, rfl, all, -⟩ := first.waiting rfl waits
      exact ⟨earlier, token, marks, rfl, all⟩
  distinct before first middle second after same name balanced := by
    subst same
    obtain ⟨z, start, -, rest⟩ := runs_label.1 runs
    obtain ⟨w, between, free', last⟩ := runs_label.1 rest
    have nested : (z.labelled first).Nested := start.nested nested_initial
    have path : w.path = z.path := (between.path_eq_iff nested).2 balanced
    have taken : w.label second ∈ w.labels := by
      rw [label, path, ← name]
      exact (between.settles rfl free').1
    rw [last.waits_for_ever rfl taken] at free
    cases free

namespace Arranged

variable {done rest : List Piece} {y : Standing}

/-- A label that waits is followed by a statement. -/
theorem waiting (arranged : Arranged (done ++ rest)) (runs : initial.Runs done y) {label : Label}
    (waits : y.waiting = some label) : ∃ marks statement more, rest = marks ++ statement :: more ∧
      (∀ mark ∈ marks, mark.isMark = true) ∧ statement.isStatement = true := by
  obtain ⟨before, token, marks, -, rfl, all, -⟩ := runs.waiting rfl waits
  rw [List.append_assoc, List.cons_append] at arranged
  obtain ⟨others, statement, more, same, all', kind⟩ := arranged.labels before token _ rfl
  rcases List.append_eq_append_iff.1 same with ⟨between, rfl, tail⟩ | ⟨between, rfl, tail⟩
  · refine ⟨between, statement, more, tail, ?_, kind⟩
    exact fun mark member => all' mark (List.mem_append_right _ member)
  · cases between with
    | nil => exact ⟨[], statement, more, tail.symm, fun _ h => absurd h List.not_mem_nil, kind⟩
    | cons first between =>
      obtain ⟨rfl, -⟩ := List.cons_eq_cons.1 tail
      have mark := all statement (List.mem_append_right _ List.mem_cons_self)
      rw [Piece.isMark_of_isStatement kind] at mark
      cases mark

/-- No label that waits is taken. -/
theorem fresh (arranged : Arranged (done ++ rest)) (runs : initial.Runs done y) {label : Label}
    (waits : y.waiting = some label) : label ∉ y.labels := by
  intro taken
  obtain ⟨other, second, marks, w, rfl, all, start, last, declared⟩ := runs.waiting rfl waits
  rw [(last.of_marks all).2] at taken
  obtain ⟨before, first, middle, z, rfl, start', between, declared'⟩ :=
    start.mem_labels rfl rfl taken
  have path : z.path = w.path := congrArg Label.block (declared'.symm.trans declared)
  have name : labelName first = labelName second :=
    congrArg Label.name (declared'.symm.trans declared)
  have nested : (z.labelled first).Nested := start'.nested nested_initial
  refine arranged.distinct before first middle second (marks ++ rest) ?_ name
    ((between.path_eq_iff nested).1 path.symm)
  simp only [List.append_assoc, List.cons_append]

/-- The next piece may stand where it stands. -/
theorem accepts {piece : Piece} (arranged : Arranged (done ++ piece :: rest))
    (runs : initial.Runs done y) : ∃ z, y.Accepts piece z := by
  cases piece with
  | opening token => exact ⟨_, .opening y token⟩
  | closing token =>
    have above := arranged.balanced.1 (done ++ [.closing token]) ⟨rest, by simp⟩
    have levels := runs.length_outer
    rw [depth_append, depth_singleton] at above
    simp only [initial, List.length_nil, Piece.rise] at above levels
    cases inside : y.outer with
    | nil =>
      rw [inside, List.length_nil] at levels
      omega
    | cons block outer => exact ⟨_, .closing inside token⟩
  | label token =>
    cases waits : y.waiting with
    | none => exact ⟨_, .label waits token⟩
    | some label =>
      obtain ⟨marks, statement, more, same, all, kind⟩ := arranged.waiting runs waits
      rw [← List.nil_append (.label token :: rest)] at same
      have first := first_of_marks same (fun _ h => absurd h List.not_mem_nil) rfl all
        (Piece.isMark_of_isStatement kind)
      rw [← first] at kind
      cases kind
  | statement tokens =>
    cases waits : y.waiting with
    | none => exact ⟨_, .plain waits tokens⟩
    | some label => exact ⟨_, .named waits (arranged.fresh runs waits) rfl⟩
  | constant tokens =>
    obtain ⟨earlier, token, marks, rfl, all⟩ := arranged.constants done tokens rest rfl
    obtain ⟨z, -, -, last⟩ := runs_label.1 runs
    have waits : y.waiting = some (z.label token) := (last.of_marks all).1
    exact ⟨_, .named waits (arranged.fresh runs waits) rfl⟩

/-- A program that is arranged as a whole is told piece by piece. -/
theorem runs (arranged : Arranged pieces) :
    ∃ y, initial.Runs pieces y ∧ y.waiting = none ∧ y.outer = [] := by
  have upTo (done : List Piece) : ∀ rest, pieces = done ++ rest → ∃ y, initial.Runs done y := by
    induction done using List.reverseRecOn with
    | nil => exact fun _ _ => ⟨initial, .nil initial⟩
    | append_singleton done piece ih =>
      intro rest same
      rw [List.append_assoc, List.singleton_append] at same
      obtain ⟨y, runs⟩ := ih (piece :: rest) same
      obtain ⟨z, accepts⟩ := (same ▸ arranged).accepts runs
      exact ⟨z, runs_concat.2 ⟨y, runs, accepts⟩⟩
  obtain ⟨y, runs⟩ := upTo pieces [] (List.append_nil pieces).symm
  refine ⟨y, runs, ?_, ?_⟩
  · cases waits : y.waiting with
    | none => rfl
    | some label =>
      rw [← List.append_nil pieces] at arranged
      obtain ⟨marks, statement, more, same, -⟩ := arranged.waiting runs waits
      simp at same
  · have levels := runs.length_outer
    rw [arranged.balanced.2] at levels
    simp only [initial, List.length_nil] at levels
    exact List.eq_nil_of_length_eq_zero (by omega)

end Arranged

/-- Both ways to tell how pieces may stand to each other tell the same. -/
theorem arranged_iff : Arranged pieces ↔
    ∃ y, initial.Runs pieces y ∧ y.waiting = none ∧ y.outer = [] :=
  ⟨Arranged.runs, fun ⟨_, runs, free, closed⟩ => .of_runs runs free closed⟩

end Grammar

end NineBit.Asm

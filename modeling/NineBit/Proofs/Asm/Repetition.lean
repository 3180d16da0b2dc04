import NineBit.Proofs.Asm.Motion

/-!
# A block and its copies

The tokens of a block are read one after the other in several blocks of a program. Next to the
reader of the first copy stands that of another one (`Parser.State.Beside`): in the outermost block
it is some blocks further, everything within the block is the same, and it has found the same things
behind what was there before (`Parser.State.Copies`). No step takes the one away from the other, so
that behind the last block there is a row of copies (`Parser.State.Row`).
-/

namespace NineBit.Asm

/-! ## Copies -/

/-- The path of a block, if its outermost but one is so many blocks further. -/
def further (i : Nat) : BlockPath → BlockPath
  | outermost :: number :: rest => outermost :: (number + i) :: rest
  | path => path

theorem further_injective (i : Nat) : Function.Injective (further i) := by
  intro p q same
  match p, q with
  | [], [] => rfl
  | [_], [_] => exact same
  | _ :: _ :: _, _ :: _ :: _ =>
    simp only [further, List.cons.injEq, Nat.add_right_cancel_iff] at same ⊢
    exact same
  | [], [_] | [], _ :: _ :: _ | [_], [] | [_], _ :: _ :: _ | _ :: _ :: _, [] | _ :: _ :: _, [_] =>
    simp [further] at same

theorem Label.move_injective {f : BlockPath → BlockPath} (injective : Function.Injective f) :
    Function.Injective (Label.move f) := by
  intro l m same
  obtain ⟨block, name⟩ := l
  obtain ⟨other, another⟩ := m
  simp only [Label.move, Label.mk.injEq] at same ⊢
  exact ⟨injective same.1, same.2⟩

/-- The statement with other paths and another index. -/
def Statement.move (f : BlockPath → BlockPath) (offset : Nat) (s : Statement) : Statement :=
  ⟨s.id + offset, s.span, s.label.map (Label.move f), s.body.move f⟩

/-- The label of a statement with another path and another index. -/
def LabelTable.moveEntry (f : BlockPath → BlockPath) (offset : Nat) (entry : Label × Nat) :
    Label × Nat := (entry.1.move f, entry.2 + offset)

/-- The path of a block in the first block of the outermost one. -/
def InFirst (path : BlockPath) : Prop := ∃ rest, path = 0 :: 1 :: rest

theorem InFirst.further {path : BlockPath} (inside : InFirst path) (i : Nat) :
    ∃ rest, further i path = 0 :: (1 + i) :: rest := by
  obtain ⟨rest, rfl⟩ := inside
  exact ⟨rest, rfl⟩

namespace Parser

/-- What one state has found has been found in another one, too, with other paths and behind what
    has been there before. -/
structure State.Copies (f : BlockPath → BlockPath) (base s t : State) : Prop where
  statements : t.statements.toList =
    base.statements.toList ++ s.statements.toList.map (Statement.move f base.statements.size)
  labels : t.labels =
    base.labels ++ s.labels.map (LabelTable.moveEntry f base.statements.size)
  references : t.references = s.references.map (Reference.move f) ++ base.references
  waiting : t.waiting = s.waiting.map fun entry => (entry.1.move f, entry.2)

/-- The blocks that are open: the same ones, within blocks of different numbers. -/
def BlocksBeside (i : Nat) (blocks others : List Block) : Prop :=
  ∃ inner children, blocks = inner ++ [⟨1, children⟩, ⟨0, 1⟩] ∧
    others = inner ++ [⟨1 + i, children⟩, ⟨0, 1 + i⟩]

/-- Everything that has been found is in the first block. -/
structure State.Inside (s : State) : Prop where
  labels : ∀ l ∈ s.labels.map Prod.fst, InFirst l.block
  references : ∀ r ∈ s.references, InFirst r.block
  waiting : ∀ entry ∈ s.waiting, InFirst entry.1.block

/-- The reader of a block beside the reader of its copy that stands so many blocks further. -/
structure State.Beside (i : Nat) (base s t : State) : Prop where
  copies : State.Copies (further i) base s t
  blocks : BlocksBeside i (s.block :: s.outer) (t.block :: t.outer)
  inside : s.Inside

/-- No label is in a block of this number or in a block within it. -/
def State.Clear (number : Nat) (base : State) : Prop :=
  ∀ l ∈ base.labels.map Prod.fst, ∀ rest, l.block ≠ 0 :: number :: rest

/-! ## Adding to both -/

section
variable {f : BlockPath → BlockPath} {base s t next other : State}

theorem State.Copies.adds (copies : State.Copies f base s t) (adds : s.Adds f t next other) :
    State.Copies f base next other := by
  obtain ⟨new, asked, -, rfl, rfl⟩ := adds
  refine ⟨copies.statements, copies.labels, ?_, copies.waiting⟩
  unfold State.grown
  dsimp only
  rw [copies.references, List.map_append, List.append_assoc]

theorem State.Copies.size (copies : State.Copies f base s t) :
    t.statements.size = s.statements.size + base.statements.size := by
  have lengths := congrArg List.length copies.statements
  rw [List.length_append, List.length_map, Array.length_toList, Array.length_toList,
    Array.length_toList] at lengths
  omega

/-- Tables of labels in another place have the labels in that place. -/
theorem map_fst_moveEntry (f : BlockPath → BlockPath) (offset : Nat) (table : LabelTable) :
    (table.map (LabelTable.moveEntry f offset)).map Prod.fst =
      (table.map Prod.fst).map (Label.move f) := by
  rw [List.map_map, List.map_map]
  rfl

/-- A label that is free in the one state is free in the other, if it was free before. -/
theorem State.Copies.fresh (copies : State.Copies f base s t)
    (injective : Function.Injective f) {l : Label} (free : l ∉ s.labels.map Prod.fst)
    (before : l.move f ∉ base.labels.map Prod.fst) : l.move f ∉ t.labels.map Prod.fst := by
  rw [copies.labels, List.map_append, map_fst_moveEntry, List.mem_append, not_or]
  refine ⟨before, fun member => ?_⟩
  obtain ⟨other, inside, same⟩ := List.mem_map.1 member
  rw [Label.move_injective injective same] at inside
  exact free inside

theorem State.Copies.addStatement (copies : State.Copies f base s t)
    (injective : Function.Injective f)
    (before : ∀ entry ∈ s.waiting, entry.1.move f ∉ base.labels.map Prod.fst) {span : Span}
    {body : Statement.Body} (clean : (s.addStatement span body).faults = s.faults) :
    State.Copies f base (s.addStatement span body) (t.addStatement span (body.move f)) ∧
      (t.addStatement span (body.move f)).faults = t.faults := by
  have size := copies.size
  cases waits : s.waiting with
  | none =>
    have waiting : t.waiting = none := copies.waiting.trans (congrArg (Option.map _) waits)
    rw [addStatement_of_free waits, addStatement_of_free waiting]
    refine ⟨⟨?_, copies.labels, copies.references, copies.waiting⟩, rfl⟩
    dsimp only
    rw [Array.toList_push, Array.toList_push, copies.statements, List.map_append,
      List.append_assoc, size]
    rfl
  | some entry =>
    obtain ⟨l, token⟩ := entry
    have waiting := copies.waiting
    rw [waits] at waiting
    have free : l ∉ s.labels.map Prod.fst := fun taken => addStatement_taken waits taken clean
    have free' := copies.fresh injective free (before (l, token) waits)
    rw [← isSome_find?_iff] at free free'
    rw [addStatement_of_fresh waits free, addStatement_of_fresh waiting free']
    refine ⟨⟨?_, ?_, copies.references, rfl⟩, rfl⟩
    · dsimp only
      rw [Array.toList_push, Array.toList_push, copies.statements, List.map_append,
        List.append_assoc, size]
      rfl
    · dsimp only
      rw [copies.labels, List.map_append, List.append_assoc, size]
      rfl

end

/-! ## Blocks -/

section
variable {i : Nat} {base s t next other : State}

theorem BlocksBeside.paths {blocks others : List Block} (beside : BlocksBeside i blocks others) :
    InFirst (blocks.map Block.number).reverse ∧
      (others.map Block.number).reverse = further i (blocks.map Block.number).reverse := by
  obtain ⟨inner, children, rfl, rfl⟩ := beside
  simp [InFirst, further]

theorem State.Inside.addStatement (inside : s.Inside) (span : Span) (body : Statement.Body) :
    (s.addStatement span body).Inside := by
  obtain ⟨found, mentioned, waits⟩ := inside
  unfold State.addStatement
  dsimp only
  cases waiting : s.waiting with
  | none => exact ⟨found, mentioned, fun _ none => absurd none (Option.not_mem_none _)⟩
  | some entry =>
    obtain ⟨l, token⟩ := entry
    dsimp only
    split
    · exact ⟨found, mentioned, fun _ none => nomatch none⟩
    · refine ⟨?_, mentioned, fun _ none => nomatch none⟩
      rw [List.map_append]
      exact List.forall_mem_append.2 ⟨found, List.forall_mem_singleton.2 (waits _ waiting)⟩

namespace State.Beside

theorem path (beside : State.Beside i base s t) : InFirst s.path ∧ t.path = further i s.path :=
  beside.blocks.paths

theorem openBlock (beside : State.Beside i base s t) :
    State.Beside i base s.openBlock t.openBlock := by
  obtain ⟨statements, labels, references, waiting⟩ := beside.copies
  obtain ⟨found, mentioned, waits⟩ := beside.inside
  obtain ⟨inner, children, here, there⟩ := beside.blocks
  refine ⟨⟨statements, labels, references, waiting⟩, ?_, ⟨found, mentioned, waits⟩⟩
  cases inner with
  | nil =>
    obtain ⟨block, outer⟩ := List.cons.inj here
    obtain ⟨block', outer'⟩ := List.cons.inj there
    refine ⟨[⟨children + 1, 0⟩], children + 1, ?_, ?_⟩
    · simp only [State.openBlock, block, outer]
      rfl
    · simp only [State.openBlock, block', outer']
      rfl
  | cons top inner =>
    obtain ⟨block, outer⟩ := List.cons.inj here
    obtain ⟨block', outer'⟩ := List.cons.inj there
    refine ⟨⟨top.children + 1, 0⟩ :: { top with children := top.children + 1 } :: inner, children,
      ?_, ?_⟩
    · simp only [State.openBlock, block, outer]
      rfl
    · simp only [State.openBlock, block', outer']
      rfl

/-- A block within the first one is closed. -/
theorem closeBlock (beside : State.Beside i base s t) (within : 1 < s.outer.length)
    (token : Token) : State.Beside i base (s.closeBlock token) (t.closeBlock token) ∧
      (s.closeBlock token).outer.length + 1 = s.outer.length ∧
      (t.closeBlock token).faults = t.faults := by
  obtain ⟨statements, labels, references, waiting⟩ := beside.copies
  obtain ⟨found, mentioned, waits⟩ := beside.inside
  obtain ⟨inner, children, here, there⟩ := beside.blocks
  cases inner with
  | nil =>
    rw [(List.cons.inj here).2] at within
    exact absurd within (Nat.lt_irrefl 1)
  | cons top inner =>
    obtain ⟨-, outer⟩ := List.cons.inj here
    obtain ⟨-, outer'⟩ := List.cons.inj there
    cases open_ : s.outer with
    | nil =>
      rw [open_] at within
      cases within
    | cons block further =>
      cases open_' : t.outer with
      | nil =>
        rw [open_'] at outer'
        cases inner <;> cases outer'
      | cons block' further' =>
        rw [open_] at outer
        rw [open_'] at outer'
        unfold State.closeBlock
        rw [open_, open_']
        exact ⟨⟨⟨statements, labels, references, waiting⟩, ⟨inner, children, outer, outer'⟩,
          ⟨found, mentioned, waits⟩⟩, rfl, rfl⟩

theorem awaitStatement (beside : State.Beside i base s t) {token : Token}
    (clean : (s.awaitStatement token).faults = s.faults) :
    State.Beside i base (s.awaitStatement token) (t.awaitStatement token) ∧
      (t.awaitStatement token).faults = t.faults := by
  obtain ⟨inside, paths⟩ := beside.path
  obtain ⟨statements, labels, references, waiting⟩ := beside.copies
  obtain ⟨found, mentioned, -⟩ := beside.inside
  unfold State.awaitStatement at clean ⊢
  cases waits : s.waiting with
  | some entry =>
    rw [waits] at clean
    exact absurd clean (fault_ne _ _ _)
  | none =>
    rw [waits] at waiting
    rw [waiting]
    refine ⟨⟨⟨statements, labels, references, ?_⟩, beside.blocks, found, mentioned, ?_⟩, rfl⟩
    · dsimp only [Option.map_none, Option.map_some]
      rw [paths]
      rfl
    · rintro entry ⟨⟩
      exact inside

/-- A statement with references in the innermost block is added to both. -/
theorem addStatement (beside : State.Beside i base s t) (clear : base.Clear (1 + i))
    (adds : s.Adds (further i) t next other) {span : Span} {body : Statement.Body}
    (clean : (next.addStatement span body).faults = next.faults) :
    State.Beside i base (next.addStatement span body)
        (other.addStatement span (body.move (further i))) ∧
      (other.addStatement span (body.move (further i))).faults = t.faults := by
  obtain ⟨inside, -⟩ := beside.path
  have copies := beside.copies.adds adds
  obtain ⟨found, mentioned, waits⟩ := beside.inside
  obtain ⟨new, asked, here, rfl, rfl⟩ := adds
  have before : ∀ entry ∈ s.waiting, entry.1.move (further i) ∉ base.labels.map Prod.fst := by
    intro entry member taken
    obtain ⟨rest, path⟩ := waits entry member
    refine clear _ taken rest ?_
    dsimp only [Label.move]
    rw [path]
    rfl
  obtain ⟨added, quiet⟩ := copies.addStatement (further_injective i) before clean
  have refers : ∀ r ∈ new, InFirst r.block := by
    intro r member
    rw [here r member]
    exact inside
  have written : State.Inside (s.grown new asked) :=
    ⟨found, List.forall_mem_append.2 ⟨refers, mentioned⟩, waits⟩
  refine ⟨⟨added, ?_, written.addStatement span body⟩, quiet⟩
  obtain ⟨block, outer⟩ := Place.blocks_addStatement (s.grown new asked) span body
  obtain ⟨block', outer'⟩ := Place.blocks_addStatement
    (t.grown (new.map (Reference.move (further i))) asked) span (body.move (further i))
  rw [block, outer, block', outer']
  exact beside.blocks

end State.Beside

/-- What is read without a problem in a block is read beside it, too. -/
theorem readStatement_beside {limit : Int} (beside : State.Beside i base s t)
    (clear : base.Clear (1 + i)) {token : Token} {rest tail : List Token}
    (within : token.kind = .blockEnd → 1 < s.outer.length)
    (clean : (readStatement limit s token rest).1.faults = s.faults) (ends : Ends tail) :
    State.Beside i base (readStatement limit s token rest).1
        (readStatement limit t token (rest ++ tail)).1 ∧
      (readStatement limit t token (rest ++ tail)).1.faults = t.faults ∧
      (readStatement limit t token (rest ++ tail)).2.rest =
        (readStatement limit s token rest).2.rest ++ tail := by
  by_cases start : token.kind = .blockStart
  · simp only [readStatement, start]
    exact ⟨beside.openBlock, rfl, trivial⟩
  by_cases stop : token.kind = .blockEnd
  · obtain ⟨closed, -, quiet⟩ := beside.closeBlock (within stop) token
    simp only [readStatement, stop]
    exact ⟨closed, quiet, trivial⟩
  by_cases label : token.kind = .label
  · simp only [readStatement, label] at clean ⊢
    obtain ⟨awaits, quiet⟩ := beside.awaitStatement clean
    exact ⟨awaits, quiet, trivial⟩
  have waiting : t.waiting.isSome = s.waiting.isSome := by
    rw [beside.copies.waiting, Option.isSome_map]
  obtain ⟨next, other, span, body, c, adds, read, read'⟩ :=
    readStatement_moved beside.path.2 waiting label start stop clean ends
  rw [read] at clean ⊢
  rw [read']
  obtain ⟨added, quiet⟩ := beside.addStatement clear adds (clean.trans adds.faults.1.symm)
  exact ⟨added, quiet, rfl⟩

/-! ## Through a block -/

/-- No more blocks are closed than are opened before and are open around. -/
def StaysIn (depth : Nat) (tokens : List Token) : Prop :=
  ∀ before, before <+: tokens →
    before.countP (·.kind = .blockEnd) ≤ before.countP (·.kind = .blockStart) + depth

instance (depth : Nat) (tokens : List Token) : Decidable (StaysIn depth tokens) :=
  decidable_of_iff (∀ before ∈ tokens.inits,
      before.countP (·.kind = .blockEnd) ≤ before.countP (·.kind = .blockStart) + depth)
    (forall_congr' fun before => imp_congr_left (List.mem_inits before tokens))

theorem StaysIn.opening {depth : Nat} {token : Token} {tokens : List Token}
    (stays : StaysIn depth (token :: tokens)) (start : token.kind = .blockStart) :
    StaysIn (depth + 1) tokens := by
  intro before first
  have le := stays (token :: before) (List.cons_prefix_cons.2 ⟨rfl, first⟩)
  rw [List.countP_cons_of_neg (by simp [start]), List.countP_cons_of_pos (by simp [start])] at le
  omega

theorem StaysIn.closing {depth : Nat} {token : Token} {tokens : List Token}
    (stays : StaysIn depth (token :: tokens)) (stop : token.kind = .blockEnd) :
    0 < depth ∧ StaysIn (depth - 1) tokens := by
  have counts (before : List Token) (first : before <+: tokens) :
      before.countP (·.kind = .blockEnd) + 1 ≤ before.countP (·.kind = .blockStart) + depth := by
    have le := stays (token :: before) (List.cons_prefix_cons.2 ⟨rfl, first⟩)
    rw [List.countP_cons_of_pos (by simp [stop]), List.countP_cons_of_neg (by simp [stop])] at le
    exact le
  have pos : 0 < depth := by
    have le := counts [] List.nil_prefix
    rw [List.countP_nil, List.countP_nil] at le
    omega
  refine ⟨pos, fun before first => ?_⟩
  have le := counts before first
  omega

/-- Tokens that are no marks count for nothing. -/
theorem StaysIn.append {depth : Nat} {read tokens : List Token}
    (stays : StaysIn depth (read ++ tokens))
    (none : ∀ token ∈ read, token.kind ≠ .blockStart ∧ token.kind ≠ .blockEnd) :
    StaysIn depth tokens := by
  intro before first
  have le := stays (read ++ before) ((List.prefix_append_right_inj read).2 first)
  have starts : read.countP (·.kind = .blockStart) = 0 :=
    List.countP_eq_zero.2 fun token member => by simp [(none token member).1]
  have stops : read.countP (·.kind = .blockEnd) = 0 :=
    List.countP_eq_zero.2 fun token member => by simp [(none token member).2]
  rw [List.countP_append, List.countP_append, starts, stops] at le
  omega

end

/-! A statement has no marks of blocks among its tokens. -/

section
variable {room : Nat} {tokens : List Token}

/-- A token that neither opens nor closes a block. -/
def Unmarked (token : Token) : Prop := token.kind ≠ .blockStart ∧ token.kind ≠ .blockEnd

theorem unmarked_of_kind {token : Token} {kind : Token.Kind} (same : token.kind = kind)
    (start : kind ≠ .blockStart) (stop : kind ≠ .blockEnd) : Unmarked token := by
  rw [Unmarked, same]
  exact ⟨start, stop⟩

theorem unmarked_length {least : Nat} (mark : Grammar.LengthMark least tokens) :
    ∀ token ∈ tokens, Unmarked token := by
  cases mark with
  | none => exact fun _ member => absurd member List.not_mem_nil
  | some marks numeral =>
    refine List.forall_mem_cons.2 ⟨?_, List.forall_mem_singleton.2 ?_⟩
    · exact unmarked_of_kind marks nofun nofun
    · exact unmarked_of_kind numeral nofun nofun

theorem unmarked_literal (literal : Grammar.IsLiteral room tokens) :
    ∀ token ∈ tokens, Unmarked token := by
  induction literal with
  | number kind | reference kind =>
    exact List.forall_mem_singleton.2 (unmarked_of_kind kind nofun nofun)
  | string kind mark =>
    exact List.forall_mem_cons.2 ⟨unmarked_of_kind kind nofun nofun, unmarked_length mark⟩
  | array opens literals closes mark ih =>
    refine List.forall_mem_cons.2 ⟨unmarked_of_kind opens nofun nofun, ?_⟩
    refine List.forall_mem_append.2 ⟨fun token member => ?_, ?_⟩
    · obtain ⟨element, among, inside⟩ := List.mem_flatten.1 member
      exact ih element among token inside
    · exact List.forall_mem_cons.2 ⟨unmarked_of_kind closes nofun nofun, unmarked_length mark⟩

theorem unmarked_mayBeLiteral (literal : Grammar.MayBeLiteral room tokens) :
    ∀ token ∈ tokens, Unmarked token := by
  rcases literal with rfl | literal
  · exact fun _ member => absurd member List.not_mem_nil
  · exact unmarked_literal literal

theorem unmarked_statement (statement : Grammar.IsStatement room tokens) :
    ∀ token ∈ tokens, Unmarked token := by
  cases statement with
  | registerAction kind | condition kind | action kind =>
    exact List.forall_mem_singleton.2 (unmarked_of_kind kind nofun nofun)
  | movement kind literal named equals sources =>
    refine List.forall_mem_cons.2 ⟨unmarked_of_kind kind nofun nofun, ?_⟩
    refine List.forall_mem_append.2 ⟨unmarked_mayBeLiteral literal, ?_⟩
    refine List.forall_mem_cons.2 ⟨unmarked_of_kind equals nofun nofun, ?_⟩
    cases sources with
    | location kind literal =>
      exact List.forall_mem_cons.2
        ⟨unmarked_of_kind kind nofun nofun, unmarked_mayBeLiteral literal⟩
    | literal literal => exact unmarked_literal literal

/-- What is read without a problem has no marks among its tokens, but for a mark by itself. -/
theorem unmarked_readStatement {limit : Int} {s : State} {token : Token} {rest : List Token}
    (start : token.kind ≠ .blockStart) (stop : token.kind ≠ .blockEnd)
    (clean : (readStatement limit s token rest).1.faults = s.faults) :
    ∃ read, token :: rest = read ++ (readStatement limit s token rest).2.rest ∧
      read ≠ [] ∧ (∀ other ∈ read, Unmarked other) ∧
        (readStatement limit s token rest).1.outer.length = s.outer.length := by
  obtain ⟨piece, same, formed, accepts⟩ := readStatement_sound clean
  obtain ⟨first, more, tokens, -⟩ := first_of_accepts formed accepts
  have levels := accepts.length_outer
  have unmarked : (∀ other ∈ piece.tokens, Unmarked other) ∧ piece.rise = 0 := by
    rw [tokens, List.cons_append] at same
    obtain ⟨rfl, -⟩ := List.cons.inj same
    cases piece with
    | opening mark =>
      cases tokens
      exact absurd formed start
    | closing mark =>
      cases tokens
      exact absurd formed stop
    | label mark =>
      cases tokens
      exact ⟨List.forall_mem_singleton.2 ⟨start, stop⟩, rfl⟩
    | statement tokens => exact ⟨unmarked_statement formed, rfl⟩
    | constant tokens => exact ⟨unmarked_literal formed.1, rfl⟩
  refine ⟨piece.tokens, same, tokens ▸ List.cons_ne_nil _ _, unmarked.1, ?_⟩
  rw [unmarked.2] at levels
  simp only [State.standing] at levels
  omega

/-- Reading on in a block does not read its closing mark. -/
theorem readStatement_staysIn {limit : Int} {s : State} {token closing : Token}
    {body : List Token} (pos : 0 < s.outer.length)
    (stays : StaysIn (s.outer.length - 1) (token :: body)) (stop : closing.kind = .blockEnd)
    (clean : (readStatement limit s token (body ++ [closing])).1.faults = s.faults) :
    ∃ later, (readStatement limit s token (body ++ [closing])).2.rest = later ++ [closing] ∧
      later.length ≤ body.length ∧
        StaysIn ((readStatement limit s token (body ++ [closing])).1.outer.length - 1) later := by
  by_cases start : token.kind = .blockStart
  · simp only [readStatement, start]
    refine ⟨body, rfl, Nat.le_refl _, ?_⟩
    have inner := stays.opening start
    have depth : s.openBlock.outer.length - 1 = s.outer.length - 1 + 1 := by
      simp only [State.openBlock, List.length_cons]
      omega
    rw [depth]
    exact inner
  by_cases last : token.kind = .blockEnd
  · simp only [readStatement, last]
    refine ⟨body, rfl, Nat.le_refl _, ?_⟩
    obtain ⟨inside, around⟩ := stays.closing last
    have depth : (s.closeBlock token).outer.length = s.outer.length - 1 := by
      unfold State.closeBlock
      cases outer : s.outer with
      | nil =>
        rw [outer] at pos
        cases pos
      | cons block outer => rfl
    rw [depth]
    exact around
  · obtain ⟨read, same, some, unmarked, level⟩ := unmarked_readStatement start last clean
    rw [level]
    rw [← List.cons_append] at same
    rcases List.append_eq_append_iff.1 same with ⟨more, longer, tail⟩ | ⟨more, shorter, tail⟩
    · -- What is read is no mark, and so not the closing one.
      cases more with
      | nil =>
        refine ⟨[], tail.symm, Nat.zero_le _, fun before first => ?_⟩
        rw [List.prefix_nil.1 first, List.countP_nil, List.countP_nil]
        exact Nat.zero_le _
      | cons mark more =>
        obtain ⟨rfl, -⟩ := List.cons.inj tail
        have taken : closing ∈ read := by
          rw [longer]
          exact List.mem_append_right _ List.mem_cons_self
        exact absurd stop (unmarked closing taken).2
    · refine ⟨more, tail, ?_, ?_⟩
      · have count := congrArg List.length shorter
        have pos := List.length_pos_of_ne_nil some
        rw [List.length_cons, List.length_append] at count
        omega
      · rw [shorter] at stays
        exact stays.append unmarked

end

section
variable {i : Nat} {base : State} {closing : Token} {tail : List Token} {limit : Int}

theorem State.Beside.outer_pos {s t : State} (beside : State.Beside i base s t) :
    0 < s.outer.length := by
  obtain ⟨inner, children, blocks, -⟩ := beside.blocks
  have count := congrArg List.length blocks
  simp only [List.length_cons, List.length_append, List.length_nil] at count
  omega

theorem readStatements_mark (stop : closing.kind = .blockEnd) (s : State) (rest : List Token) :
    readStatements limit s (closing :: rest) =
      readStatements limit (s.closeBlock closing) rest := by
  rw [readStatements]
  simp only [readStatement, stop]

/-- The block ends here. -/
theorem readStatements_closing (stop : closing.kind = .blockEnd) {s t : State}
    (beside : State.Beside i base s t)
    (closed : (readStatements limit s ([] ++ [closing])).outer = []) :
    ∃ x y : State, State.Beside i base x y ∧ x.outer.length = 1 ∧ y.faults = t.faults ∧
      readStatements limit s ([] ++ [closing]) = x.closeBlock closing ∧
      readStatements limit t ([] ++ [closing] ++ tail) =
        readStatements limit (y.closeBlock closing) tail := by
  have last : readStatements limit s ([] ++ [closing]) = s.closeBlock closing := by
    rw [List.nil_append, readStatements_mark stop, readStatements]
  refine ⟨s, t, beside, ?_, rfl, last, ?_⟩
  · rw [last] at closed
    have pos := beside.outer_pos
    by_contra deeper
    obtain ⟨-, count, -⟩ := beside.closeBlock (by omega) closing
    rw [closed, List.length_nil] at count
    omega
  · rw [List.nil_append, List.singleton_append, readStatements_mark stop]

/-- A block is read to its end beside the first one. -/
theorem readStatements_beside (clear : base.Clear (1 + i)) (stop : closing.kind = .blockEnd)
    (ends : Ends tail) (n : Nat) : ∀ (body : List Token), body.length ≤ n → ∀ {s t : State},
    State.Beside i base s t → StaysIn (s.outer.length - 1) body →
    (readStatements limit s (body ++ [closing])).faults = s.faults →
    (readStatements limit s (body ++ [closing])).outer = [] →
    ∃ x y : State, State.Beside i base x y ∧ x.outer.length = 1 ∧ y.faults = t.faults ∧
      readStatements limit s (body ++ [closing]) = x.closeBlock closing ∧
      readStatements limit t (body ++ [closing] ++ tail) =
        readStatements limit (y.closeBlock closing) tail := by
  induction n with
  | zero =>
    intro body le s t beside stays clean closed
    obtain rfl : body = [] := List.eq_nil_of_length_eq_zero (Nat.le_zero.1 le)
    exact readStatements_closing stop beside closed
  | succ n ih =>
    intro body le s t beside stays clean closed
    cases body with
    | nil => exact readStatements_closing stop beside closed
    | cons token body =>
      rw [List.cons_append, readStatements] at clean closed ⊢
      rw [List.cons_append, readStatements]
      obtain ⟨first, later⟩ :=
        (grows_readStatement limit s token _).clean (grows_readStatements limit _ _) clean
      have within (last : token.kind = .blockEnd) : 1 < s.outer.length := by
        have inside := (stays.closing last).1
        omega
      obtain ⟨next, quiet, rest⟩ := readStatement_beside beside clear within first ends
      obtain ⟨more, left, shorter, inner⟩ :=
        readStatement_staysIn beside.outer_pos stays stop first
      rw [rest]
      rw [left] at later closed ⊢
      rw [List.length_cons] at le
      obtain ⟨x, y, last, outermost, silent, here, there⟩ :=
        ih more (by omega) next inner later closed
      exact ⟨x, y, last, outermost, silent.trans quiet, here, there⟩

end

/-! ## A row of blocks -/

section
variable {i n : Nat} {base one t : State} {opening closing : Token} {body tail : List Token}
  {limit : Int}

theorem readStatements_opening (start : opening.kind = .blockStart) (s : State)
    (rest : List Token) :
    readStatements limit s (opening :: rest) = readStatements limit s.openBlock rest := by
  rw [readStatements]
  simp only [readStatement, start]

/-- Nothing is open, and there has been no problem. -/
structure State.Finished (s : State) : Prop where
  outer : s.outer = []
  waiting : s.waiting = none
  faults : s.faults = []

/-- The reader stands behind so many blocks. -/
structure State.Behind (number : Nat) (s : State) : Prop extends s.Finished where
  block : s.block = ⟨0, number⟩

/-- One more block is a copy of the first one. -/
theorem readStatements_block (start : opening.kind = .blockStart)
    (stop : closing.kind = .blockEnd) (stays : StaysIn 0 body)
    (reads : readStatements limit .initial (opening :: (body ++ [closing])) = one)
    (first : one.Finished) (behind : base.Behind i) (clear : base.Clear (1 + i))
    (ends : Ends tail) :
    ∃ t, readStatements limit base (opening :: (body ++ [closing]) ++ tail) =
        readStatements limit t tail ∧
      State.Copies (further i) base one t ∧ t.Behind (1 + i) ∧ one.Inside := by
  subst reads
  obtain ⟨closed, waiting, clean⟩ := first
  rw [readStatements_opening start] at closed waiting clean ⊢
  rw [List.cons_append, readStatements_opening start]
  have beside : State.Beside i base State.initial.openBlock base.openBlock := by
    refine ⟨⟨?_, ?_, ?_, ?_⟩, ⟨[], 0, rfl, ?_⟩, ?_, ?_, ?_⟩
    · exact (List.append_nil _).symm
    · exact (List.append_nil _).symm
    · rfl
    · exact behind.waiting
    · simp only [State.openBlock, behind.block, behind.outer]
      rw [Nat.add_comm 1 i]
      rfl
    · exact fun _ none => absurd none List.not_mem_nil
    · exact fun _ none => absurd none List.not_mem_nil
    · exact fun _ none => absurd none (Option.not_mem_none _)
  obtain ⟨x, y, ⟨⟨statements, labels, references, waits⟩, blocks, found, mentioned, within⟩,
    outermost, quiet, here, there⟩ :=
    readStatements_beside clear stop ends body.length body (Nat.le_refl _) beside stays clean closed
  obtain ⟨inner, children, open_, open_'⟩ := blocks
  cases inner with
  | cons block inner =>
    have count := congrArg List.length open_
    simp only [List.length_cons, List.length_append, List.length_nil] at count
    omega
  | nil =>
    obtain ⟨-, outer⟩ := List.cons.inj open_
    obtain ⟨-, outer'⟩ := List.cons.inj open_'
    have last : x.closeBlock closing = { x with block := ⟨0, 1⟩, outer := [] } := by
      unfold State.closeBlock
      rw [outer]
    have last' : y.closeBlock closing = { y with block := ⟨0, 1 + i⟩, outer := [] } := by
      unfold State.closeBlock
      rw [outer']
    rw [here, last] at waiting ⊢
    rw [there, last']
    refine ⟨_, rfl, ⟨statements, labels, references, waits⟩, ⟨⟨rfl, ?_, ?_⟩, rfl⟩,
      found, mentioned, within⟩
    · dsimp only
      rw [waits]
      exact congrArg (Option.map _) waiting
    · exact quiet.trans behind.faults

/-- A row of copies has been found, and nothing else. -/
structure State.Row (one : State) (n : Nat) (t : State) : Prop where
  behind : t.Behind n
  statements : t.statements.toList = (List.range n).flatMap fun i =>
    one.statements.toList.map (Statement.move (further i) (i * one.statements.size))
  labels : t.labels = (List.range n).flatMap fun i =>
    one.labels.map (LabelTable.moveEntry (further i) (i * one.statements.size))
  references : t.references.reverse = (List.range n).flatMap fun i =>
    one.references.reverse.map (Reference.move (further i))

theorem State.Row.size (row : State.Row one n t) :
    t.statements.size = n * one.statements.size := by
  have count := congrArg List.length row.statements
  simpa [List.length_flatMap] using count

/-- The copies are in other blocks than the next one. -/
theorem State.Row.clear (row : State.Row one n t) (inside : one.Inside) : t.Clear (1 + n) := by
  intro l member rest path
  obtain ⟨entry, found, rfl⟩ := List.mem_map.1 member
  rw [row.labels] at found
  obtain ⟨i, lt, copied⟩ := List.mem_flatMap.1 found
  obtain ⟨original, listed, rfl⟩ := List.mem_map.1 copied
  obtain ⟨more, moved⟩ :=
    (inside.labels _ (List.mem_map_of_mem listed)).further i
  have same : 0 :: (1 + i) :: more = 0 :: (1 + n) :: rest := moved.symm.trans path
  simp only [List.cons.injEq, Nat.add_left_cancel_iff, true_and] at same
  have less := List.mem_range.1 lt
  omega

theorem State.Row.succ (row : State.Row one n base) (copies : State.Copies (further n) base one t)
    (behind : t.Behind (n + 1)) : State.Row one (n + 1) t := by
  have size := row.size
  refine ⟨behind, ?_, ?_, ?_⟩
  · rw [copies.statements, row.statements, List.range_succ, List.flatMap_append,
      List.flatMap_singleton, size]
  · rw [copies.labels, row.labels, List.range_succ, List.flatMap_append,
      List.flatMap_singleton, size]
  · rw [copies.references, List.reverse_append, row.references, List.range_succ,
      List.flatMap_append, List.flatMap_singleton, List.map_reverse]

theorem ends_replicate (start : opening.kind = .blockStart) (rest : List Token) :
    ∀ n : Nat, Ends (List.replicate n (opening :: rest)).flatten
  | 0 => fun _ none => nomatch none
  | n + 1 => by
    rintro token ⟨⟩
    simp [startsLiteral, start]

/-- Behind a row of blocks stands a row of copies of the first one. -/
theorem row_readStatements (start : opening.kind = .blockStart)
    (stop : closing.kind = .blockEnd) (stays : StaysIn 0 body)
    (reads : readStatements limit .initial (opening :: (body ++ [closing])) = one)
    (first : one.Finished) (inside : one.Inside) (more : Nat) :
    ∀ {n : Nat} {base : State}, State.Row one n base →
      State.Row one (n + more) (readStatements limit base
        (List.replicate more (opening :: (body ++ [closing]))).flatten) := by
  induction more with
  | zero =>
    intro n base row
    rw [List.replicate_zero, List.flatten_nil, readStatements]
    exact row
  | succ more ih =>
    intro n base row
    obtain ⟨t, read, copies, behind, -⟩ := readStatements_block start stop stays reads first
      row.behind (row.clear inside) (ends_replicate start (body ++ [closing]) more)
    rw [Nat.add_comm 1 n] at behind
    have next : n + (more + 1) = n + 1 + more := by omega
    rw [List.replicate_succ, List.flatten_cons, read, next]
    exact ih (row.succ copies behind)

end

end Parser

end NineBit.Asm

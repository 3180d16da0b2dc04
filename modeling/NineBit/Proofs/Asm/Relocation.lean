import NineBit.Proofs.Asm.Insertion
import NineBit.Proofs.Asm.Order

/-!
# Relocating a declaration

Of the statements of a program a layout uses the code, in its order, and the constants that
references mean. So a program mirrors the one with a declaration at another place of its block
(`Program.Inserts.mirrors_relocated`), and a program without a declaration mirrors the one with it
if no reference means it (`Program.Inserts.mirrors_unused`): the indices of the statements differ,
and the words are the same.
-/

namespace NineBit.Asm

/-- Where a statement is found once that at one index stands at another one. -/
def relocate (k k' j : Nat) : Nat :=
  if j < k then makeRoom k' j else if j = k then k' else makeRoom k' (j - 1)

theorem relocate_self (k k' : Nat) : relocate k k' k = k' := by
  unfold relocate
  rw [if_neg (Nat.lt_irrefl k), if_pos rfl]

theorem relocate_makeRoom (k k' i : Nat) : relocate k k' (makeRoom k i) = makeRoom k' i := by
  by_cases early : i < k
  · rw [show makeRoom k i = i from if_pos early, relocate, if_pos early]
  · rw [show makeRoom k i = i + 1 from if_neg early, relocate, if_neg (by omega),
      if_neg (by omega), Nat.add_sub_cancel]

/-- Moving back undoes the move. -/
theorem relocate_relocate (k k' j : Nat) : relocate k' k (relocate k k' j) = j := by
  by_cases new : j = k
  · rw [new, relocate_self, relocate_self]
  · obtain ⟨i, rfl⟩ := exists_makeRoom new
    rw [relocate_makeRoom, relocate_makeRoom]

theorem relocate_injective (k k' : Nat) : Function.Injective (relocate k k') :=
  Function.LeftInverse.injective (relocate_relocate k k')

/-! ## What references mean -/

section
variable {table others : LabelTable} {σ : Nat → Nat} {k : Nat} {r : Reference}

theorem Reference.target?_eq (table : LabelTable) (r : Reference) :
    r.target? table = (enclosing r.block).findSome? fun block => table.find? ⟨block, r.name⟩ := by
  unfold target? resolve?
  rw [List.map_findSome?]
  congr 1
  funext block
  rw [Function.comp_apply, Option.map_map]
  exact Option.map_id'

/-- Where labels name the same, references mean the same. -/
theorem Reference.target?_map (same : ∀ l, others.find? l = (table.find? l).map σ)
    (r : Reference) : r.target? others = (r.target? table).map σ := by
  rw [target?_eq, target?_eq, List.map_findSome?]
  congr 1
  funext block
  exact same _

/-- A reference that does not mean the new statement means what it means without it. -/
theorem Reference.target?_makeRoom {label : Option Label}
    (same : ∀ l, others.find? l = if label = some l then some k
      else (table.find? l).map (makeRoom k))
    (other : r.target? others ≠ some k) :
    r.target? others = (r.target? table).map (makeRoom k) := by
  rw [target?_eq] at other ⊢
  rw [target?_eq, List.map_findSome?]
  generalize enclosing r.block = blocks at other ⊢
  induction blocks with
  | nil => rfl
  | cons block rest ih =>
    rw [List.findSome?_cons, same] at other ⊢
    rw [List.findSome?_cons, Function.comp_apply]
    by_cases named : label = some ⟨block, r.name⟩
    · rw [if_pos named] at other
      exact absurd rfl other
    · rw [if_neg named] at other ⊢
      cases found : table.find? ⟨block, r.name⟩ with
      | some i => rfl
      | none =>
        rw [found] at other
        exact ih other

end

/-! ## The statement at two indices, and without it -/

theorem forall₂_of_common {α β γ : Type} {R : α → β → Prop} {S : α → γ → Prop} {T : β → γ → Prop}
    (both : ∀ a b c, R a b → S a c → T b c) {as : List α} {bs : List β} {cs : List γ}
    (first : List.Forall₂ R as bs) (second : List.Forall₂ S as cs) : List.Forall₂ T bs cs := by
  induction first generalizing cs with
  | nil =>
    cases second
    exact .nil
  | cons head _ ih =>
    cases second with
    | cons head' tail' => exact .cons (both _ _ _ head head') (ih tail')

namespace Program

section
variable {limit : Int} {tokens others more : List Token} {p q q' : Program} {k k' : Nat}
  {c : Content} {references references' : List Reference} {r : Reference}

/-- The statements that a reference may mean are those of its index. -/
theorem meant?_eq_some_iff {s : Statement} : p.meant? r = some s ↔
    ∃ i, r.target? p.labels = some i ∧ p.statements[i]? = some s :=
  Option.bind_eq_some_iff

namespace Inserts

theorem getElem?_relocate (inserts : Inserts k c references p q)
    (inserts' : Inserts k' c references' p q') (j : Nat) :
    q'.contents[relocate k k' j]? = q.contents[j]? := by
  by_cases new : j = k
  · rw [new, relocate_self, inserts.getElem?_new, inserts'.getElem?_new]
  · obtain ⟨i, rfl⟩ := exists_makeRoom new
    rw [relocate_makeRoom, inserts.getElem?_makeRoom, inserts'.getElem?_makeRoom]

theorem target?_relocated (inserts : Inserts k c references p q)
    (inserts' : Inserts k' c references' p q') (recorded : p.Recorded limit tokens)
    (recorded' : q.Recorded limit others) (recorded'' : q'.Recorded limit more) (r : Reference) :
    r.target? q'.labels = (r.target? q.labels).map (relocate k k') := by
  refine r.target?_map fun l => ?_
  rw [inserts.find?_eq recorded recorded', inserts'.find?_eq recorded recorded'']
  split
  · exact congrArg some (relocate_self k k').symm
  · rw [Option.map_map]
    congr 1
    funext i
    exact (relocate_makeRoom k k' i).symm

/-- With a constant at another index, a program does the same. -/
theorem mirrors_relocated (inserts : Inserts k c references p q)
    (inserts' : Inserts k' c references' p q') (recorded : p.Recorded limit tokens)
    (recorded' : q.Recorded limit others) (recorded'' : q'.Recorded limit more)
    (constant : ∃ literal, c.body = .constant literal) : q.Mirrors id (relocate k k') q' where
  injective := relocate_injective k k'
  code := by
    refine forall₂_of_common (fun s t u first second => ⟨?_, ?_⟩)
      (inserts.code recorded recorded' constant) (inserts'.code recorded recorded'' constant)
    · rw [second.id, first.id, relocate_makeRoom]
    · rw [second.body, first.body, mapReferences_id_body, mapReferences_id_body]
  meant r _ s meant := by
    obtain ⟨j, target, found⟩ := meant?_eq_some_iff.1 meant
    obtain ⟨t, found', mirrored⟩ := recorded'.mirrored recorded''
      (inserts.getElem?_relocate inserts' j) found
    refine ⟨t, meant?_eq_some_iff.2 ⟨relocate k k' j, ?_, found'⟩, mirrored⟩
    show r.target? q'.labels = _
    rw [inserts.target?_relocated inserts' recorded recorded' recorded'', target]
    rfl

/-- Without a constant that no reference means, a program does the same. -/
theorem mirrors_unused (inserts : Inserts k c references p q) (recorded : p.Recorded limit tokens)
    (recorded' : q.Recorded limit others) (constant : ∃ literal, c.body = .constant literal)
    (unused : ∀ r ∈ q.references, r.target? q.labels ≠ some k) : p.Mirrors id (makeRoom k) q where
  injective := makeRoom_injective k
  code := inserts.code recorded recorded' constant
  meant r member s meant := by
    obtain ⟨i, target, found⟩ := meant?_eq_some_iff.1 meant
    obtain ⟨t, found', mirrored⟩ := recorded.mirrored recorded' (inserts.getElem?_makeRoom i) found
    have member' := (inserts.references r).2 (.inr member)
    refine ⟨t, meant?_eq_some_iff.2 ⟨makeRoom k i, ?_, found'⟩, mirrored⟩
    show r.target? q.labels = _
    rw [Reference.target?_makeRoom (inserts.find?_eq recorded recorded') (unused r member'), target]
    rfl

end Inserts

end

end Program

/-! ## Images -/

section
variable {config : Config} {tokens others more : List Token} {o : Output}

/-- Tokens come to the same words as those whose program they mirror. -/
theorem Assembles.mirrored {g : Reference → Reference} {σ : Nat → Nat}
    (assembles : Assembles config tokens o) (known : ∀ token ∈ tokens, token.Known)
    (known' : ∀ token ∈ others, token.Known)
    (clean : (parse config.maxLiteralDepth others).problems = [])
    (mirrors : (parseStatements config.maxLiteralDepth tokens).1.Mirrors g σ
      (parseStatements config.maxLiteralDepth others).1) :
    ∃ other, Assembles config others other ∧ other.words = o.words :=
  ⟨_, (assembles_mirrored_iff known known' assembles.parsed clean mirrors _).2
    ⟨o, assembles, rfl⟩, rfl⟩

/-- Tokens come to the same words as those whose program mirrors theirs. -/
theorem Assembles.mirroring {g : Reference → Reference} {σ : Nat → Nat}
    (assembles : Assembles config tokens o) (known : ∀ token ∈ tokens, token.Known)
    (known' : ∀ token ∈ others, token.Known)
    (clean : (parse config.maxLiteralDepth others).problems = [])
    (mirrors : (parseStatements config.maxLiteralDepth others).1.Mirrors g σ
      (parseStatements config.maxLiteralDepth tokens).1) :
    ∃ other, Assembles config others other ∧ other.words = o.words := by
  obtain ⟨other, original, same⟩ :=
    (assembles_mirrored_iff known' known clean assembles.parsed mirrors o).1 assembles
  exact ⟨other, original, by rw [same]⟩

variable {k k' : Nat} {c : Content} {references : List Reference}

/-- With a constant at another index, a program comes to the same words. -/
theorem Assembles.relocated (assembles : Assembles config others o)
    (known : ∀ token ∈ others, token.Known) (known' : ∀ token ∈ more, token.Known)
    (inserts : Program.Inserts k c references (parseStatements config.maxLiteralDepth tokens).1
      (parseStatements config.maxLiteralDepth others).1)
    (inserts' : Program.Inserts k' c references (parseStatements config.maxLiteralDepth tokens).1
      (parseStatements config.maxLiteralDepth more).1)
    (constant : ∃ literal, c.body = .constant literal)
    (clean : (parseStatements config.maxLiteralDepth more).2 = []) :
    ∃ other, Assembles config more other ∧ other.words = o.words := by
  have recorded := recorded_parseStatements config.maxLiteralDepth tokens
  have recorded' := recorded_parseStatements config.maxLiteralDepth others
  have recorded'' := recorded_parseStatements config.maxLiteralDepth more
  have found := (problems_parse_eq_nil_iff.1 assembles.parsed).2
  refine assembles.mirrored known known' (problems_parse_eq_nil_iff.2 ⟨clean, fun r member => ?_⟩)
    (inserts.mirrors_relocated inserts' recorded recorded' recorded'' constant)
  rw [inserts.target?_relocated inserts' recorded recorded' recorded'', Option.isSome_map]
  exact found r ((inserts.references r).2 ((inserts'.references r).1 member))

/-- Without a constant that no reference means, a program comes to the same words. -/
theorem Assembles.unused (assembles : Assembles config others o)
    (known : ∀ token ∈ others, token.Known) (known' : ∀ token ∈ tokens, token.Known)
    (inserts : Program.Inserts k c references (parseStatements config.maxLiteralDepth tokens).1
      (parseStatements config.maxLiteralDepth others).1)
    (constant : ∃ literal, c.body = .constant literal)
    (clean : (parseStatements config.maxLiteralDepth tokens).2 = [])
    (unused : ∀ r ∈ o.program.references, r.target? o.program.labels ≠ some k) :
    ∃ other, Assembles config tokens other ∧ other.words = o.words := by
  have recorded := recorded_parseStatements config.maxLiteralDepth tokens
  have recorded' := recorded_parseStatements config.maxLiteralDepth others
  have found := (problems_parse_eq_nil_iff.1 assembles.parsed).2
  rw [assembles.program] at unused
  refine assembles.mirroring known known' (problems_parse_eq_nil_iff.2 ⟨clean, fun r member => ?_⟩)
    (inserts.mirrors_unused recorded recorded' constant unused)
  have member' := (inserts.references r).2 (.inr member)
  have some := found r member'
  rw [Reference.target?_makeRoom (inserts.find?_eq recorded recorded') (unused r member'),
    Option.isSome_map] at some
  exact some

end

/-! ## Declarations -/

namespace Grammar

/-- Pieces are what some tokens are made of. -/
structure Divides (room : Nat) (tokens : List Token) (pieces : List Piece) : Prop where
  tokens : tokens = pieces.flatMap Piece.tokens
  formed : ∀ piece ∈ pieces, piece.Formed room
  arranged : Arranged pieces

end Grammar

open Grammar

namespace Parser

variable {limit : Int} {tokens : List Token} {before after before' after' : List Grammar.Piece}
  {name : Token} {constant : List Token}

theorem acts_of_clean (clean : (parseStatements limit tokens).2 = []) :
    ∀ token ∈ tokens, Acts token := by
  have reads := grows_readStatements limit .initial tokens
  have ends := (State.Faulted.atEnd (readStatements limit .initial tokens) tokens).grows
  exact acts_of_readStatements (reads.clean ends (List.reverse_eq_nil_iff.1 clean)).1

/-- Tokens that are parsed without a problem of form are made of pieces. -/
theorem exists_divides (clean : (parseStatements limit tokens).2 = []) :
    ∃ pieces, Divides limit.toNat tokens pieces := by
  obtain ⟨pieces, same, formed, arranged⟩ :=
    (parseStatements_eq_nil_iff (acts_of_clean clean)).1 clean
  exact ⟨pieces, same, formed, arranged⟩

/-- A declaration gives a constant, which is the same at every place of its block. -/
theorem exists_declared
    (divides : Divides limit.toNat tokens (before ++ (declaration name constant ++ after)))
    (acts : ∀ piece ∈ before ++ (declaration name constant ++ after),
      ∀ token ∈ piece.tokens, Acts token) :
    ∃ x c references, Stands name constant before after x ∧ c.label = some (x.label name) ∧
      (∃ literal, c.body = .constant literal) ∧
        ∀ (t : State) (z : Standing), t.path = x.path →
          t.standing.Runs (declaration name constant) z → State.Gives [c] references t
            ((declaration name constant).foldl (State.take limit) t) := by
  obtain ⟨-, formed, arranged⟩ := divides
  obtain ⟨x, stands⟩ := arranged.stands
  obtain ⟨early, later⟩ := List.forall_mem_append.1 formed
  obtain ⟨acts₁, acts₂⟩ := List.forall_mem_append.1 acts
  obtain ⟨label, rest⟩ := List.forall_mem_cons.1 later
  have initial : State.initial.standing = Standing.initial := rfl
  have first := stands.before
  obtain ⟨y, z, declared, -⟩ := stands.declared
  rw [← initial] at first
  have standing := (readStatements_eq_foldl first early acts₁).2.2
  rw [← standing] at declared
  obtain ⟨c, references, named, data, gives⟩ := declaration_gives label
    (rest _ List.mem_cons_self) (acts₂ _ (List.mem_cons_of_mem _ List.mem_cons_self)) declared
  rw [standing] at named
  refine ⟨x, c, references, stands, named, data, fun t w path runs => gives t w ?_ runs⟩
  exact path.trans (congrArg Standing.path standing).symm

end Parser

section
variable {config : Config} {tokens : List Token} {o : Output}
  {before after before' after' : List Grammar.Piece} {name : Token} {constant : List Token}

theorem forall_mem_tokens {K : Token → Prop} {pieces : List Grammar.Piece} :
    (∀ token ∈ pieces.flatMap Piece.tokens, K token) ↔
      ∀ piece ∈ pieces, ∀ token ∈ piece.tokens, K token := by
  simp only [List.mem_flatMap]
  exact ⟨fun all piece member token inside => all token ⟨piece, member, inside⟩,
    fun all token ⟨piece, member, inside⟩ => all piece member token inside⟩

/-- The pieces of a program are the same wherever one of them stands. -/
theorem mem_around {pieces : List Grammar.Piece} (same : before' ++ after' = before ++ after)
    {piece : Grammar.Piece} (member : piece ∈ before' ++ (pieces ++ after')) :
    piece ∈ before ++ (pieces ++ after) := by
  have old : piece ∈ before' ++ after' ↔ piece ∈ before ++ after := by rw [same]
  simp only [List.mem_append] at member old ⊢
  tauto

theorem mem_without {pieces : List Grammar.Piece} {piece : Grammar.Piece}
    (member : piece ∈ before ++ after) : piece ∈ before ++ (pieces ++ after) := by
  simp only [List.mem_append] at member ⊢
  tauto

/-- Moved to any place of its block at which no label waits, a declaration leaves the words as they
    are; and so does leaving it out if no reference means it. -/
theorem Assembles.declaration (known : ∀ token ∈ tokens, token.Known)
    (assembles : Assembles config tokens o)
    (divides : Divides config.maxLiteralDepth tokens
      (before ++ (Parser.declaration name constant ++ after))) :
    (∃ st literal, o.program.statements[before.countP Piece.isStatement]? = some st ∧
      st.label.map Label.name = some (labelName name) ∧ st.body = .constant literal) ∧
    (∀ before' after', before' ++ after' = before ++ after → SameBlock before before' →
      ¬Pending before' → ∃ other, Assembles config
        ((before' ++ (Parser.declaration name constant ++ after')).flatMap Piece.tokens) other ∧
          other.words = o.words) ∧
    ((∀ r ∈ o.program.references,
        r.target? o.program.labels ≠ some (before.countP Piece.isStatement)) →
      ∃ other, Assembles config ((before ++ after).flatMap Piece.tokens) other ∧
        other.words = o.words) := by
  have clean := (problems_parse_eq_nil_iff.1 assembles.parsed).1
  have acts := Parser.acts_of_clean clean
  obtain rfl := divides.tokens
  rw [forall_mem_tokens] at acts known
  replace divides : Divides (config.maxLiteralDepth : Int).toNat _ _ := divides
  obtain ⟨x, c, references, stands, named, data, gives⟩ := Parser.exists_declared divides acts
  obtain ⟨clean', -, inserts⟩ := Parser.inserts_of_stands stands divides.formed acts gives
  have recorded := recorded_parseStatements config.maxLiteralDepth
    ((before ++ (Parser.declaration name constant ++ after)).flatMap Piece.tokens)
  refine ⟨?_, fun before' after' same block settled => ?_, fun unused => ?_⟩
  · obtain ⟨literal, body⟩ := data
    refine ⟨c.numbered (before.countP Piece.isStatement), literal, ?_, ?_, body⟩
    · rw [assembles.program, recorded.getElem?_statements, inserts.getElem?_new]
      rfl
    · exact congrArg (Option.map Label.name) named
  · obtain ⟨y, stands', path⟩ := stands.move same block settled
    obtain ⟨-, clean'', inserts'⟩ := Parser.inserts_of_stands stands'
      (fun piece member => divides.formed piece (mem_around same member))
      (fun piece member => acts piece (mem_around same member))
      fun t z paths => gives t z (paths.trans path)
    rw [same] at inserts'
    refine assembles.relocated (forall_mem_tokens.2 known) ?_ inserts inserts' data clean''
    exact forall_mem_tokens.2 fun piece member => known piece (mem_around same member)
  · refine assembles.unused (forall_mem_tokens.2 known) ?_ inserts data clean' unused
    exact forall_mem_tokens.2 fun piece member => known piece (mem_without member)

/-- Where constants are declared does not matter. Tokens that are assembled are made of pieces. A
    label directly followed by its string or its array declares a constant; moved to any place of
    its block at which no label waits for its statement, it leaves the words as they are, and so
    does leaving it out if no reference means it. The data of the image is put down in the order in
    which the code and the data itself first ask for it. -/
theorem constants_relocatable (known : ∀ token ∈ tokens, token.Known)
    (assembles : Assembles config tokens o) :
    (∃ pieces, Divides config.maxLiteralDepth tokens pieces) ∧
    (∀ before name constant after, Divides config.maxLiteralDepth tokens
        (before ++ (Parser.declaration name constant ++ after)) →
      (∃ st literal, o.program.statements[before.countP Piece.isStatement]? = some st ∧
        st.label.map Label.name = some (labelName name) ∧ st.body = .constant literal) ∧
      (∀ before' after', before' ++ after' = before ++ after → SameBlock before before' →
        ¬Pending before' → ∃ other, Assembles config
          ((before' ++ (Parser.declaration name constant ++ after')).flatMap Piece.tokens) other ∧
            other.words = o.words) ∧
      ((∀ r ∈ o.program.references,
          r.target? o.program.labels ≠ some (before.countP Piece.isStatement)) →
        ∃ other, Assembles config ((before ++ after).flatMap Piece.tokens) other ∧
          other.words = o.words)) ∧
    ∃ pieces, Linked config.wordBits o pieces ∧ Layout.Drawn o.program pieces
      (Layout.gapsFrom 0 (o.program.image config.wordBits pieces)) := by
  have clean := (problems_parse_eq_nil_iff.1 assembles.parsed).1
  have parsed := parsed_of_problems known assembles.parsed
  exact ⟨Parser.exists_divides clean,
    fun _ _ _ _ divides => assembles.declaration known divides,
    drawn_of_layout config.nine_le_wordBits parsed assembles.laid⟩

end

/-- A table of a block may stand before the statement that uses it as well as behind it, and a text
    that nothing refers to can be left out. -/
theorem constants_relocatable_table :
    let token (kind : Token.Kind) (text : String) : Token := ⟨kind, text, default⟩
    let first := Grammar.Piece.statement
      [token .location "a", token .movement "=", token .reference ":x"]
    let start := Grammar.Piece.opening (token .blockStart "#push")
    let second := Grammar.Piece.statement
      [token .location "b", token .movement "=", token .reference ":y"]
    let table := Parser.declaration (token .label "y:")
      [token .arrayStart "[", token .reference ":x", token .arrayEnd "]"]
    let stop := Grammar.Piece.closing (token .blockEnd "#pop")
    let text := Parser.declaration (token .label "x:") [token .string ("hi".push closingNul)]
    let spare := Parser.declaration (token .label "z:") [token .string ("no".push closingNul)]
    ∃ o moved shorter,
      Assembles .standard
        (([first, start, second] ++ (table ++ stop :: (text ++ spare))).flatMap Piece.tokens) o ∧
      o.words = #[502, 4, 503, 7, 104, 105, 0, 4] ∧
      Assembles .standard
        (([first, start] ++ (table ++ second :: stop :: (text ++ spare))).flatMap Piece.tokens)
          moved ∧ moved.words = o.words ∧
      Assembles .standard
        (([first, start, second] ++ (table ++ stop :: text)).flatMap Piece.tokens) shorter ∧
      shorter.words = o.words := by
  intro token first start second table stop text spare
  let pieces := [first, start, second] ++ (table ++ stop :: (text ++ spare))
  have word (name : String) (spelt : Isa.isLocationWord name = true) :
      (token .location name).Known := spelt
  have known : ∀ token ∈ pieces.flatMap Piece.tokens, token.Known := by
    refine List.forall_mem_cons.2 ⟨word "a" (by decide +kernel), ?_⟩
    iterate 3 refine List.forall_mem_cons.2 ⟨trivial, ?_⟩
    refine List.forall_mem_cons.2 ⟨word "b" (by decide +kernel), ?_⟩
    iterate 11 refine List.forall_mem_cons.2 ⟨trivial, ?_⟩
    exact fun _ none => absurd none List.not_mem_nil
  have clean : (parse 32 (pieces.flatMap Piece.tokens)).problems = [] := by decide +kernel
  have laid : (layout 9 256 (parse 32 (pieces.flatMap Piece.tokens)).value).value.toOption.map
      (·.words) = some #[502, 4, 503, 7, 104, 105, 0, 4] := by
    decide +kernel
  obtain ⟨o, assembles, words⟩ := exists_assembles .standard clean laid (by decide)
  have unused : ∀ r ∈ o.program.references, r.target? o.program.labels ≠ some 4 := by
    rw [assembles.program]
    decide +kernel
  have uses (destination : Isa.Destination) (name label : String)
      (named : destination.name = Parser.locationName name false) :
      (Grammar.Piece.statement
        [token .location name, token .movement "=", token .reference label]).Formed 32 :=
    @IsStatement.movement 32 (token .location name) (token .movement "=") []
      [token .reference label] destination rfl (.inl rfl) named rfl (.literal (.reference rfl))
  have array : (Grammar.Piece.constant
      [token .arrayStart "[", token .reference ":x", token .arrayEnd "]"]).Formed 32 :=
    ⟨@IsLiteral.array 31 (token .arrayStart "[") (token .arrayEnd "]")
      [[token .reference ":x"]] [] rfl (List.forall_mem_singleton.2 (.reference rfl)) rfl .none,
      _, rfl, .inr rfl⟩
  have string (text : String) : (Grammar.Piece.constant [token .string text]).Formed 32 :=
    ⟨.string rfl .none, _, rfl, .inl rfl⟩
  have formed : ∀ piece ∈ pieces, piece.Formed 32 := by
    refine List.forall_mem_cons.2 ⟨uses .a "a" ":x" (by decide +kernel), ?_⟩
    refine List.forall_mem_cons.2 ⟨rfl, ?_⟩
    refine List.forall_mem_cons.2 ⟨uses .b "b" ":y" (by decide +kernel), ?_⟩
    refine List.forall_mem_cons.2 ⟨rfl, List.forall_mem_cons.2 ⟨array, ?_⟩⟩
    refine List.forall_mem_cons.2 ⟨rfl, ?_⟩
    iterate 2 refine List.forall_mem_cons.2 ⟨rfl, List.forall_mem_cons.2 ⟨string _, ?_⟩⟩
    exact fun _ none => absurd none List.not_mem_nil
  have arranged : Arranged pieces := by
    refine arranged_iff.2 ⟨_, .cons (.plain rfl _) (.cons (.opening _ _) (.cons (.plain rfl _)
      (.cons (.label rfl _) (.cons (.named rfl ?_ rfl) (.cons (.closing rfl _)
        (.cons (.label rfl _) (.cons (.named rfl ?_ rfl) (.cons (.label rfl _)
          (.cons (.named rfl ?_ rfl) (.nil _)))))))))), rfl, rfl⟩
    all_goals decide +kernel
  obtain ⟨-, declared, -⟩ := constants_relocatable known assembles
  obtain ⟨-, moves, -⟩ := declared [first, start, second] _ _ (stop :: (text ++ spare))
    ⟨rfl, formed, arranged⟩
  obtain ⟨-, -, leaves⟩ := declared ([first, start, second] ++ (table ++ stop :: text)) _ _ []
    ⟨rfl, formed, arranged⟩
  have level : ∀ piece ∈ [second], piece.rise = 0 := List.forall_mem_singleton.2 rfl
  have settled : ¬Pending [first, start] :=
    not_pending (List.forall_mem_cons.2 ⟨.inr rfl, List.forall_mem_singleton.2 (.inl rfl)⟩)
  obtain ⟨moved, before, same⟩ := moves [first, start] (second :: stop :: (text ++ spare)) rfl
    ⟨[second], balanced_of_rise level, .inr rfl⟩ settled
  obtain ⟨shorter, without, same'⟩ := leaves unused
  exact ⟨o, moved, shorter, assembles, words, before, same, without, same'⟩

end NineBit.Asm

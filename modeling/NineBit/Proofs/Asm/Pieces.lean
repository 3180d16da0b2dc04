import NineBit.Proofs.Asm.Mirrors
import NineBit.Proofs.Asm.Motion

/-!
# Reading piece by piece

A piece that may stand where it does is read to its end, whatever follows, so the tokens of a row
of pieces are read by taking one piece after the other (`Parser.readStatements_eq_foldl`). Taken in
two states that have the same block open, a statement is the same statement (`Parser.take_both`):
neither what has been found before nor what follows plays a part. So the statements and references
that pieces give depend only on what is open before them (`Parser.foldl_gives`), and those of a
label with its string or its array only on the path of the block (`Parser.declaration_gives`).
-/

namespace NineBit.Asm

section
variable (f : BlockPath → BlockPath)

mutual

/-- Other paths are other references. -/
theorem Literal.move_eq_mapReferences : ∀ literal : Literal,
    literal.move f = literal.mapReferences (Reference.move f)
  | .number _ _ | .text _ _ | .reference _ => rfl
  | .array elements span =>
    congrArg (Literal.array · span) (Literal.moveAll_eq_mapAllReferences elements)

theorem Literal.moveAll_eq_mapAllReferences : ∀ literals : List Literal,
    Literal.moveAll f literals = Literal.mapAllReferences (Reference.move f) literals
  | [] => rfl
  | literal :: rest => by
    rw [Literal.moveAll, literal.move_eq_mapReferences, Literal.moveAll_eq_mapAllReferences rest]
    rfl

end

theorem move_eq_mapReferences (body : Statement.Body) :
    body.move f = body.mapReferences (Reference.move f) := by
  have literals : Literal.move f = Literal.mapReferences (Reference.move f) :=
    funext (Literal.move_eq_mapReferences f)
  cases body with
  | condition | action => rfl
  | movement | constant =>
    rw [Statement.Body.move, literals]
    rfl

theorem move_id_body (body : Statement.Body) : body.move id = body :=
  (move_eq_mapReferences id body).trans (mapReferences_id_body body)

end

/-- A statement without its index. -/
structure Content where
  span : Span
  label : Option Label
  body : Statement.Body

/-- The statement with an index. -/
def Content.numbered (c : Content) (id : Nat) : Statement := ⟨id, c.span, c.label, c.body⟩

/-- The statement without its index. -/
def Statement.content (s : Statement) : Content := ⟨s.span, s.label, s.body⟩

/-! ## Standing alike -/

/-- The same is open, and the same label waits. -/
structure Grammar.Standing.Alike (x y : Grammar.Standing) : Prop where
  block : y.block = x.block
  outer : y.outer = x.outer
  waiting : y.waiting = x.waiting

namespace Grammar.Standing.Alike

variable {x y next other : Grammar.Standing} {piece : Grammar.Piece}

theorem path (alike : x.Alike y) : y.path = x.path := by
  rw [Standing.path, Standing.path, alike.block, alike.outer]

/-- A piece leaves the same open where the same is open. -/
theorem accepts (alike : x.Alike y) (accepts : x.Accepts piece next)
    (accepts' : y.Accepts piece other) : next.Alike other := by
  have path := alike.path
  obtain ⟨block, outer, waiting⟩ := alike
  cases accepts with
  | opening =>
    cases accepts' with
    | opening => exact ⟨by simp [opened, block], by simp [opened, block, outer], waiting⟩
    | named _ _ statement => cases statement
  | closing inside =>
    cases accepts' with
    | closing inside' =>
      rw [outer, inside] at inside'
      cases inside'
      exact ⟨rfl, rfl, waiting⟩
    | named _ _ statement => cases statement
  | label free token =>
    cases accepts' with
    | label free' => exact ⟨block, outer, congrArg some (congrArg (Label.mk · _) path)⟩
    | named _ _ statement => cases statement
  | plain free =>
    cases accepts' with
    | plain => exact ⟨block, outer, waiting⟩
    | named waits =>
      rw [waiting, free] at waits
      cases waits
  | named waits fresh statement =>
    cases accepts' with
    | opening | closing | label => cases statement
    | plain free =>
      rw [waiting, waits] at free
      cases free
    | named => exact ⟨block, outer, rfl⟩

end Grammar.Standing.Alike

/-! ## Taking pieces -/

namespace Parser

open Grammar

/-- Takes one piece. -/
def State.take (limit : Int) (s : State) (piece : Grammar.Piece) : State :=
  match piece.tokens with
  | [] => s
  | token :: rest => (readStatement limit s token rest).1

variable {limit : Int} {s t : State} {piece : Grammar.Piece} {pieces : List Grammar.Piece}
  {token : Token} {y : Standing}

theorem take_opening (limit : Int) (s : State) (kind : token.kind = .blockStart) :
    s.take limit (.opening token) = s.openBlock := by
  simp only [State.take, Piece.tokens, readStatement, kind]

theorem take_closing (limit : Int) (s : State) (kind : token.kind = .blockEnd) :
    s.take limit (.closing token) = s.closeBlock token := by
  simp only [State.take, Piece.tokens, readStatement, kind]

theorem take_label (limit : Int) (s : State) (kind : token.kind = .label) :
    s.take limit (.label token) = s.awaitStatement token := by
  simp only [State.take, Piece.tokens, readStatement, kind]

/-- The first token of a statement is no mark and no label. -/
theorem kind_of_statement {room : Nat} {rest : List Token} (formed : piece.Formed room)
    (statement : piece.isStatement = true) (tokens : piece.tokens = token :: rest) :
    token.kind ≠ .label ∧ token.kind ≠ .blockStart ∧ token.kind ≠ .blockEnd := by
  cases piece with
  | opening | closing | label => cases statement
  | statement =>
    cases tokens
    cases formed with
    | registerAction kind | condition kind | action kind | movement kind =>
      rw [kind]
      exact ⟨nofun, nofun, nofun⟩
  | constant =>
    cases tokens
    obtain ⟨-, _, ⟨⟩, kind | kind⟩ := formed
    all_goals
      rw [kind]
      exact ⟨nofun, nofun, nofun⟩

/-- A statement that may stand in two states with the same block open is the same statement in
    both. -/
theorem take_both (formed : piece.Formed limit.toNat) (statement : piece.isStatement = true)
    (accepts : s.standing.Accepts piece y) (acts : ∀ token ∈ piece.tokens, Acts token)
    (paths : t.path = s.path) (waiting : t.waiting.isSome = s.waiting.isSome) :
    ∃ (new : List Reference) (asked : List Demand) (span : Span) (body : Statement.Body),
      s.take limit piece = (s.grown new asked).addStatement span body ∧
      t.take limit piece = (t.grown new asked).addStatement span body := by
  obtain ⟨token, rest, tokens, -⟩ := first_of_accepts formed accepts
  obtain ⟨label, start, stop⟩ := kind_of_statement formed statement tokens
  have nothing : Ends [] := by rintro _ ⟨⟩
  have act := acts token (tokens ▸ List.mem_cons_self)
  have clean := (readStatement_complete tokens formed accepts act fun _ => nothing).faults
  rw [List.append_nil] at clean
  obtain ⟨next, after, span, body, c, ⟨new, asked, -, rfl, rfl⟩, read, other⟩ :=
    readStatement_moved (f := id) paths waiting label start stop clean nothing
  have same : new.map (Reference.move id) = new := List.map_id new
  rw [List.append_nil, move_id_body, same] at other
  unfold State.take
  rw [tokens]
  exact ⟨new, asked, span, body, congrArg Prod.fst read, congrArg Prod.fst other⟩

/-- What follows a piece plays no part. -/
theorem readStatement_eq_take {rest tail : List Token} (tokens : piece.tokens = token :: rest)
    (formed : piece.Formed limit.toNat) (accepts : s.standing.Accepts piece y)
    (acts : Acts token) (ends : piece.isStatement = true → Ends tail) :
    (readStatement limit s token (rest ++ tail)).1 = s.take limit piece := by
  unfold State.take
  rw [tokens]
  dsimp only
  cases statement : piece.isStatement with
  | false =>
    cases piece with
    | statement | constant => cases statement
    | opening mark =>
      cases tokens
      simp only [readStatement, show token.kind = .blockStart from formed]
    | closing mark =>
      cases tokens
      simp only [readStatement, show token.kind = .blockEnd from formed]
    | label name =>
      cases tokens
      simp only [readStatement, show token.kind = .label from formed]
  | true =>
    obtain ⟨label, start, stop⟩ := kind_of_statement formed statement tokens
    have nothing : Ends [] := by rintro _ ⟨⟩
    have clean := (readStatement_complete tokens formed accepts acts fun _ => nothing).faults
    rw [List.append_nil] at clean
    obtain ⟨next, after, span, body, c, ⟨new, asked, -, rfl, rfl⟩, read, other⟩ :=
      readStatement_moved (f := id) (t := s) rfl rfl label start stop clean (ends statement)
    have same : new.map (Reference.move id) = new := List.map_id new
    rw [read, other, move_id_body, same]

/-- A piece that may stand here is taken without a problem. -/
theorem take_complete (formed : piece.Formed limit.toNat) (accepts : s.standing.Accepts piece y)
    (acts : ∀ token ∈ piece.tokens, Acts token) :
    (s.take limit piece).faults = s.faults ∧ (s.take limit piece).standing = y := by
  obtain ⟨token, rest, tokens, -⟩ := first_of_accepts formed accepts
  have act := acts token (tokens ▸ List.mem_cons_self)
  have nothing : Ends [] := by rintro _ ⟨⟩
  have reads := readStatement_complete tokens formed accepts act fun _ => nothing
  have same := readStatement_eq_take tokens formed accepts act fun _ => nothing
  exact ⟨same ▸ reads.faults, same ▸ reads.standing⟩

/-- The tokens of pieces that may stand one after the other are read by taking these. -/
theorem readStatements_eq_foldl (runs : s.standing.Runs pieces y)
    (formed : ∀ piece ∈ pieces, piece.Formed limit.toNat)
    (acts : ∀ piece ∈ pieces, ∀ token ∈ piece.tokens, Acts token) :
    readStatements limit s (pieces.flatMap Piece.tokens) = pieces.foldl (State.take limit) s ∧
      (pieces.foldl (State.take limit) s).faults = s.faults ∧
      (pieces.foldl (State.take limit) s).standing = y := by
  induction pieces generalizing s with
  | nil =>
    cases runs
    rw [List.flatMap_nil, readStatements]
    exact ⟨rfl, rfl, rfl⟩
  | cons piece rest ih =>
    obtain ⟨first, all⟩ := List.forall_mem_cons.1 formed
    obtain ⟨act, acts⟩ := List.forall_mem_cons.1 acts
    cases runs with
    | cons accepts later =>
      have ends (statement : piece.isStatement = true) : Ends (rest.flatMap Piece.tokens) :=
        ends_of_runs later all (waiting_of_accepts accepts statement)
      obtain ⟨token, more, tokens, -⟩ := first_of_accepts first accepts
      have act' := act token (tokens ▸ List.mem_cons_self)
      have left := (readStatement_complete tokens first accepts act' ends).rest
      obtain ⟨clean, standing⟩ := take_complete first accepts act
      rw [← standing] at later
      obtain ⟨reads, clean', standing'⟩ := ih later all acts
      rw [List.flatMap_cons, tokens, List.cons_append, readStatements, left,
        readStatement_eq_take tokens first accepts act' ends]
      exact ⟨reads, clean'.trans clean, standing'⟩

/-! ## Actions that are read -/

/-- The token is an action of a register or of the machine. -/
def IsAction (token : Token) : Prop := token.kind = .registerAction ∨ token.kind = .action

theorem not_isAction {kind : Token.Kind} (same : token.kind = kind)
    (register : kind ≠ .registerAction) (action : kind ≠ .action) : ¬IsAction token := by
  rintro (own | own)
  · exact register (same.symm.trans own)
  · exact action (same.symm.trans own)

theorem not_isAction_lengthMark {least : Nat} {tokens : List Token}
    (mark : LengthMark least tokens) : ∀ token ∈ tokens, ¬IsAction token := by
  cases mark with
  | none => exact fun _ member => absurd member List.not_mem_nil
  | some marks numeral =>
    simp only [List.forall_mem_cons, List.not_mem_nil, false_implies, implies_true, and_true]
    exact ⟨not_isAction marks nofun nofun, not_isAction numeral nofun nofun⟩

theorem not_isAction_literal {room : Nat} {tokens : List Token} (literal : IsLiteral room tokens) :
    ∀ token ∈ tokens, ¬IsAction token := by
  induction literal with
  | number kind | reference kind =>
    exact List.forall_mem_singleton.2 (not_isAction kind nofun nofun)
  | string kind mark =>
    exact List.forall_mem_cons.2 ⟨not_isAction kind nofun nofun, not_isAction_lengthMark mark⟩
  | array opens _ closes mark ih =>
    refine List.forall_mem_cons.2
      ⟨not_isAction opens nofun nofun, List.forall_mem_append.2 ⟨?_, ?_⟩⟩
    · intro token member
      obtain ⟨element, inside, member⟩ := List.mem_flatten.1 member
      exact ih element inside token member
    · exact List.forall_mem_cons.2
        ⟨not_isAction closes nofun nofun, not_isAction_lengthMark mark⟩

theorem not_isAction_mayBeLiteral {room : Nat} {tokens : List Token}
    (literal : MayBeLiteral room tokens) : ∀ token ∈ tokens, ¬IsAction token := by
  rcases literal with rfl | literal
  · exact fun _ member => absurd member List.not_mem_nil
  · exact not_isAction_literal literal

theorem not_isAction_source {room : Nat} {tokens : List Token} (source : IsSource room tokens) :
    ∀ token ∈ tokens, ¬IsAction token := by
  cases source with
  | location kind literal =>
    exact List.forall_mem_cons.2
      ⟨not_isAction kind nofun nofun, not_isAction_mayBeLiteral literal⟩
  | literal literal => exact not_isAction_literal literal

/-- An action is a piece of its own. -/
theorem alone_of_isAction {room : Nat} (formed : piece.Formed room)
    (member : token ∈ piece.tokens) (action : IsAction token) : piece.tokens = [token] := by
  cases piece with
  | opening other | closing other | label other =>
    exact congrArg (fun token => [token]) (List.mem_singleton.1 member).symm
  | constant tokens => exact absurd action (not_isAction_literal formed.1 token member)
  | statement tokens =>
    cases formed with
    | registerAction | condition | action =>
      exact congrArg (fun token => [token]) (List.mem_singleton.1 member).symm
    | @movement target sign index source _ kind literal _ equals sources =>
      have none : ∀ token ∈ target :: (index ++ sign :: source), ¬IsAction token :=
        List.forall_mem_cons.2 ⟨not_isAction kind nofun nofun,
          List.forall_mem_append.2 ⟨not_isAction_mayBeLiteral literal,
            List.forall_mem_cons.2
              ⟨not_isAction equals nofun nofun, not_isAction_source sources⟩⟩⟩
      exact absurd action (none token member)

/-- An action that is read without a problem stands for one. -/
theorem acts_of_readStatement {rest : List Token}
    (clean : (readStatement limit s token rest).1.faults = s.faults) : Acts token := by
  have given {action : Option Isa.Action}
      (clean : (s.addAction token action).faults = s.faults) : action.isSome = true := by
    cases action with
    | some x => rfl
    | none => exact absurd clean (fault_ne _ _ _)
  constructor
  all_goals
    intro kind
    simp only [readStatement, kind] at clean
    exact given clean

/-- In tokens that are read without a problem, every action stands for one. -/
theorem acts_of_readStatements {tokens : List Token}
    (clean : (readStatements limit s tokens).faults = s.faults) : ∀ token ∈ tokens, Acts token := by
  fun_induction readStatements limit s tokens with
  | case1 s => exact fun _ member => absurd member List.not_mem_nil
  | case2 s first rest next ih =>
    obtain ⟨here, later⟩ :=
      (grows_readStatement limit s first rest).clean (grows_readStatements limit _ _) clean
    obtain ⟨piece, same, formed, -⟩ := readStatement_sound here
    intro token member
    rw [same, List.mem_append] at member
    rcases member with inside | behind
    · by_cases action : IsAction token
      · rw [alone_of_isAction formed inside action] at same
        cases (List.cons.inj same).1
        exact acts_of_readStatement here
      · exact ⟨fun kind => absurd (.inl kind) action, fun kind => absurd (.inr kind) action⟩
    · exact ih later token behind

/-! ## What pieces give -/

/-- What the statements of a state are, in order. -/
def State.contents (s : State) : List Content := s.statements.toList.map Statement.content

/-- Statements and references have been added. -/
structure State.Gives (contents : List Content) (references : List Reference) (s next : State) :
    Prop where
  contents : next.contents = s.contents ++ contents
  references : next.references = references ++ s.references

section
variable {next last : State} {contents more : List Content} {references others : List Reference}

theorem State.Gives.of_eq (statements : next.statements = s.statements)
    (references : next.references = s.references) : State.Gives [] [] s next where
  contents := by rw [State.contents, statements, List.append_nil, State.contents]
  references := references

theorem State.Gives.trans (first : State.Gives contents references s next)
    (second : State.Gives more others next last) :
    State.Gives (contents ++ more) (others ++ references) s last where
  contents := by rw [second.contents, first.contents, List.append_assoc]
  references := by rw [second.references, first.references, List.append_assoc]

theorem State.Gives.unique (gives : State.Gives contents references s next)
    (again : State.Gives more others s next) : contents = more ∧ references = others :=
  ⟨List.append_cancel_left (gives.contents.symm.trans again.contents),
    List.append_cancel_right (gives.references.symm.trans again.references)⟩

/-- A statement added without a problem has the label that waits. -/
theorem gives_addStatement {span : Span} {body : Statement.Body}
    (clean : (s.addStatement span body).faults = s.faults) :
    State.Gives [⟨span, s.waiting.map Prod.fst, body⟩] [] s (s.addStatement span body) := by
  cases waits : s.waiting with
  | none =>
    rw [addStatement_of_free waits]
    exact ⟨by simp [State.contents, Statement.content], rfl⟩
  | some entry =>
    obtain ⟨label, name⟩ := entry
    have fresh : label ∉ s.labels.map Prod.fst := fun taken =>
      addStatement_taken waits taken clean
    rw [← isSome_find?_iff] at fresh
    rw [addStatement_of_fresh waits fresh]
    exact ⟨by simp [State.contents, Statement.content], rfl⟩

/-- A statement is the same wherever it stands in a block. -/
theorem take_gives (formed : piece.Formed limit.toNat) (statement : piece.isStatement = true)
    (accepts : s.standing.Accepts piece y) (acts : ∀ token ∈ piece.tokens, Acts token) :
    ∃ c references, ∀ (t : State) (z : Standing), t.path = s.path →
      t.standing.waiting = s.standing.waiting → t.standing.Accepts piece z →
        State.Gives [c] references t (t.take limit piece) := by
  have both (t : State) (z : Standing) (paths : t.path = s.path)
      (waiting : t.standing.waiting = s.standing.waiting)
      (accepts' : t.standing.Accepts piece z) :
      ∃ c references, State.Gives [c] references s (s.take limit piece) ∧
        State.Gives [c] references t (t.take limit piece) := by
    have waits := congrArg Option.isSome waiting
    unfold State.standing at waits
    rw [Option.isSome_map, Option.isSome_map] at waits
    obtain ⟨new, asked, span, body, taken, taken'⟩ :=
      take_both formed statement accepts acts paths waits
    have clean := (take_complete formed accepts acts).1
    have clean' := (take_complete formed accepts' acts).1
    rw [taken] at clean ⊢
    rw [taken'] at clean' ⊢
    have gives := gives_addStatement clean
    have gives' := gives_addStatement clean'
    rw [show (t.grown new asked).waiting.map Prod.fst =
      (s.grown new asked).waiting.map Prod.fst from waiting] at gives'
    exact ⟨_, new, ⟨gives.contents, gives.references⟩,
      ⟨gives'.contents, gives'.references⟩⟩
  obtain ⟨c, references, gives, -⟩ := both s y rfl rfl accepts
  refine ⟨c, references, fun t z paths waiting accepts' => ?_⟩
  obtain ⟨d, others, again, gives'⟩ := both t z paths waiting accepts'
  obtain ⟨same, same'⟩ := gives.unique again
  rw [same, same']
  exact gives'

/-- A mark or a label gives nothing. -/
theorem take_gives_nothing (formed : piece.Formed limit.toNat)
    (other : piece.isStatement = false) (t : State) :
    State.Gives [] [] t (t.take limit piece) := by
  cases piece with
  | statement | constant => cases other
  | opening token =>
    rw [take_opening limit t formed]
    exact .of_eq rfl rfl
  | closing token =>
    rw [take_closing limit t formed]
    unfold State.closeBlock
    split <;> exact .of_eq rfl rfl
  | label token =>
    rw [take_label limit t formed]
    unfold State.awaitStatement
    split <;> exact .of_eq rfl rfl

/-- Pieces give the same in any two states that leave the same open. -/
theorem foldl_gives (runs : s.standing.Runs pieces y)
    (formed : ∀ piece ∈ pieces, piece.Formed limit.toNat)
    (acts : ∀ piece ∈ pieces, ∀ token ∈ piece.tokens, Acts token) :
    ∃ contents references, contents.length = pieces.countP Piece.isStatement ∧
      ∀ (t : State) (z : Standing), s.standing.Alike t.standing → t.standing.Runs pieces z →
        State.Gives contents references t (pieces.foldl (State.take limit) t) := by
  induction pieces generalizing s with
  | nil => exact ⟨[], [], rfl, fun t _ _ _ => .of_eq rfl rfl⟩
  | cons piece rest ih =>
    obtain ⟨first, all⟩ := List.forall_mem_cons.1 formed
    obtain ⟨act, acts⟩ := List.forall_mem_cons.1 acts
    cases runs with
    | cons accepts later =>
      have given : ∃ contents references, contents.length = [piece].countP Piece.isStatement ∧
          ∀ (t : State) (z : Standing), s.standing.Alike t.standing →
            t.standing.Accepts piece z →
              State.Gives contents references t (t.take limit piece) := by
        cases statement : piece.isStatement with
        | true =>
          obtain ⟨c, references, gives⟩ := take_gives first statement accepts act
          refine ⟨[c], references, ?_, fun t z alike => gives t z alike.path alike.waiting⟩
          rw [List.countP_singleton, statement]
          rfl
        | false =>
          refine ⟨[], [], ?_, fun t _ _ _ => take_gives_nothing first statement t⟩
          rw [List.countP_singleton, statement]
          rfl
      rw [← (take_complete first accepts act).2] at later
      obtain ⟨contents, references, count, gives⟩ := given
      obtain ⟨more, others, count', gives'⟩ := ih later all acts
      refine ⟨contents ++ more, others ++ references, ?_, fun t z alike runs' => ?_⟩
      · rw [List.length_append, count, count', ← List.countP_append, List.singleton_append]
      · cases runs' with
        | cons accepts' later' =>
          have standing := (take_complete first accepts act).2
          have standing' := (take_complete first accepts' act).2
          rw [← standing'] at later'
          refine (gives t _ alike accepts').trans (gives' _ _ ?_ later')
          rw [standing, standing']
          exact alike.accepts accepts accepts'

/-! ## Declarations -/

/-- A constant that may stand here is data. -/
theorem take_constant {constant : List Token}
    (formed : (Piece.constant constant).Formed limit.toNat)
    (accepts : s.standing.Accepts (.constant constant) y) :
    ∃ (new : List Reference) (asked : List Demand) (literal : Literal),
      s.take limit (.constant constant) =
        (s.grown new asked).addStatement literal.span (.constant literal) := by
  obtain ⟨is, token, first, kind⟩ := formed
  obtain ⟨rest, rfl⟩ := List.head?_eq_some_iff.1 first
  have waits : s.waiting.isSome = true := by
    cases accepts with
    | named waits =>
      have isSome := congrArg Option.isSome waits
      rwa [State.standing, Option.isSome_map] at isSome
  have nothing : NoMark [] := by rintro _ ⟨⟩
  obtain ⟨-, some, clean, -⟩ := readLiteralFrom_complete is nothing s
  rw [List.append_nil] at some clean
  obtain ⟨literal, read⟩ := Option.isSome_iff_exists.1 some
  obtain ⟨new, asked, -, adds, -⟩ :=
    (readLiteralFrom_moved (f := id) (t := s) rfl clean nothing).adds
  refine ⟨new, asked, literal, ?_⟩
  unfold State.take
  rcases kind with kind | kind
  all_goals
    simp only [Piece.tokens, readStatement, kind, waits, read, decide_true, Bool.true_or,
      Bool.or_true, Bool.true_and, if_true]
    rw [adds]

/-- A label directly followed by its string or its array. -/
def declaration (name : Token) (constant : List Token) : List Grammar.Piece :=
  [.label name, .constant constant]

/-- A declaration may stand where no label waits and its label is new. -/
theorem runs_declaration {x : Standing} {name : Token} {constant : List Token} :
    x.Runs (declaration name constant) y ↔ x.waiting = none ∧ x.label name ∉ x.labels ∧
      y = { x with labels := x.labels ++ [x.label name] } := by
  constructor
  · rintro (_ | ⟨first, _ | ⟨second, _ | _⟩⟩)
    obtain ⟨free, rfl⟩ := Standing.accepts_label.1 first
    cases second with
    | named waits fresh =>
      cases waits
      refine ⟨free, fresh, ?_⟩
      rw [← free]
      rfl
  · rintro ⟨free, fresh, rfl⟩
    refine .cons (.label free name) (.cons (.named rfl fresh rfl) ?_)
    rw [← free]
    exact .nil _

/-- Behind the label of a declaration its constant may stand. -/
theorem accepts_constant {name : Token} {constant : List Token}
    (label : (Piece.label name).Formed limit.toNat)
    (runs : s.standing.Runs (declaration name constant) y) :
    (s.take limit (.label name)).standing = s.standing.labelled name ∧
      (s.take limit (.label name)).standing.Accepts (.constant constant) y := by
  cases runs with
  | cons first rest =>
    obtain ⟨free, rfl⟩ := Standing.accepts_label.1 first
    have free : s.waiting = none := Option.map_eq_none_iff.1 free
    have standing : (s.take limit (.label name)).standing = s.standing.labelled name := by
      rw [take_label limit s label]
      simp only [State.awaitStatement, free]
      rfl
    exact ⟨standing, standing ▸ Standing.runs_singleton.1 rest⟩

/-- A declaration is the same constant wherever it stands in a block. -/
theorem declaration_gives {name : Token} {constant : List Token}
    (label : (Piece.label name).Formed limit.toNat)
    (formed : (Piece.constant constant).Formed limit.toNat)
    (acts : ∀ token ∈ constant, Acts token)
    (runs : s.standing.Runs (declaration name constant) y) :
    ∃ c references, c.label = some (s.standing.label name) ∧
      (∃ literal, c.body = .constant literal) ∧
        ∀ (t : State) (z : Standing), t.path = s.path →
          t.standing.Runs (declaration name constant) z → State.Gives [c] references t
            ((declaration name constant).foldl (State.take limit) t) := by
  obtain ⟨labelled, accepts⟩ := accepts_constant label runs
  obtain ⟨c, references, gives⟩ := take_gives formed rfl accepts acts
  obtain ⟨new, asked, literal, taken⟩ := take_constant formed accepts
  have clean := (take_complete formed accepts acts).1
  have given := gives _ _ rfl rfl accepts
  rw [taken] at clean given
  have added := gives_addStatement clean
  obtain ⟨same, -⟩ := given.unique ⟨added.contents, added.references⟩
  have same := (List.cons.inj same).1
  refine ⟨c, references, ?_, ⟨literal, congrArg Content.body same⟩, fun t z path runs' => ?_⟩
  · exact (congrArg Content.label same).trans (congrArg Standing.waiting labelled)
  · obtain ⟨labelled', accepts'⟩ := accepts_constant label runs'
    have nothing : State.Gives [] [] t (t.take limit (.label name)) :=
      take_gives_nothing label rfl t
    have paths : (t.take limit (.label name)).path = (s.take limit (.label name)).path :=
      (congrArg Standing.path labelled').trans
        (path.trans (congrArg Standing.path labelled).symm)
    have waiting : (t.take limit (.label name)).standing.waiting =
        (s.take limit (.label name)).standing.waiting := by
      rw [labelled, labelled']
      exact congrArg some (congrArg (Label.mk · _) path)
    have both := nothing.trans (gives _ z paths waiting accepts')
    rw [List.append_nil] at both
    exact both

end

end Parser

end NineBit.Asm

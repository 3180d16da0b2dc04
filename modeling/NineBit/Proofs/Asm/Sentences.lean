import NineBit.Proofs.Asm.Literals
import NineBit.Proofs.Asm.Outcome

/-!
# The parser accepts the grammar

Reading one piece of a program finds no problem exactly if the piece has its form and may stand
where it does. In one direction, tokens read without a problem are a piece that the standing
accepts (`Parser.readStatement_sound`); in the other, such a piece is read to its end
(`Parser.readStatement_complete`), since what follows a statement never goes on with it
(`Parser.ends_of_runs`). Both go from one piece to all of them, and what the end of the tokens
leaves open is what the grammar forbids (`Parser.atEnd_iff`). So the parser accepts the sentences of
the grammar and nothing else (`Assembly.parse_accepts`).
-/

namespace NineBit.Asm

open Grammar

namespace Parser

/-- A token that is an action stands for one. -/
def Acts (token : Token) : Prop :=
  (token.kind = .registerAction → (registerAction? token.text).isSome = true) ∧
    (token.kind = .action → (controlAction? token.text).isSome = true)

/-- Reading has found no problem, has come to these tokens and leaves this open. -/
structure State.ReadsTo (s : State) (y : Standing) (tail : List Token) (next : State × Cursor) :
    Prop where
  faults : next.1.faults = s.faults
  standing : next.1.standing = y
  rest : next.2.rest = tail

/-! ## Names of locations -/

theorem name_of_source {text : String} {source : Isa.Source}
    (named : Isa.Source.ofName? text = some source) : source.name = text := by
  have same := List.find?_some (p := fun s : Isa.Source => s.name == text) named
  exact eq_of_beq same

theorem name_of_destination {text : String} {destination : Isa.Destination}
    (named : Isa.Destination.ofName? text = some destination) : destination.name = text := by
  have same := List.find?_some (p := fun x : Isa.Destination => x.name == text) named
  exact eq_of_beq same

/-! ## Adding statements -/

section
variable {s : State} {span : Span} {body : Statement.Body} {label : Label} {token : Token}
  {piece : Grammar.Piece} {y : Standing}

/-- A label is in the table if a lookup finds it. -/
theorem isSome_find?_iff {table : LabelTable} :
    (table.find? label).isSome = true ↔ label ∈ table.map Prod.fst := by
  induction table with
  | nil => simp [LabelTable.find?]
  | cons entry table ih =>
    obtain ⟨other, id⟩ := entry
    simp only [LabelTable.find?, List.lookup_cons, List.map_cons, List.mem_cons] at ih ⊢
    by_cases same : label = other
    · simp [same]
    · simp [same, ih, beq_false_of_ne same]

theorem addStatement_free (free : s.waiting = none) :
    (s.addStatement span body).faults = s.faults ∧
      (s.addStatement span body).standing = s.standing := by
  rw [addStatement_of_free free]
  exact ⟨rfl, rfl⟩

theorem addStatement_named (waits : s.waiting = some (label, token))
    (fresh : label ∉ s.labels.map Prod.fst) :
    (s.addStatement span body).faults = s.faults ∧
      (s.addStatement span body).standing =
        { s.standing with waiting := none, labels := s.standing.labels ++ [label] } := by
  rw [← isSome_find?_iff] at fresh
  rw [addStatement_of_fresh waits fresh]
  refine ⟨rfl, ?_⟩
  unfold State.standing
  dsimp only
  rw [List.map_append]
  rfl

theorem addStatement_taken (waits : s.waiting = some (label, token))
    (taken : label ∈ s.labels.map Prod.fst) :
    (s.addStatement span body).faults ≠ s.faults := by
  rw [← isSome_find?_iff] at taken
  rw [addStatement_of_taken waits taken]
  exact fault_ne _ _ _

theorem grows_addStatement (s : State) (span : Span) (body : Statement.Body) :
    s.Grows (s.addStatement span body) := by
  unfold State.addStatement
  split
  · exact .of_eq rfl
  · dsimp only
    split
    · exact .fault _ _ _
    · exact .of_eq rfl

/-- A statement added without a problem may stand there. -/
theorem addStatement_sound (statement : piece.isStatement = true)
    (unnamed : s.waiting = none → ∃ tokens, piece = .statement tokens)
    (clean : (s.addStatement span body).faults = s.faults) :
    s.standing.Accepts piece (s.addStatement span body).standing := by
  cases waits : s.waiting with
  | none =>
    obtain ⟨tokens, rfl⟩ := unnamed waits
    rw [(addStatement_free waits).2]
    exact .plain (by simp [State.standing, waits]) tokens
  | some entry =>
    obtain ⟨label, token⟩ := entry
    have fresh : label ∉ s.labels.map Prod.fst := fun taken =>
      addStatement_taken waits taken clean
    rw [(addStatement_named waits fresh).2]
    exact .named (by simp [State.standing, waits]) fresh statement

/-- A statement that may stand here is added without a problem. -/
theorem addStatement_complete (accepts : s.standing.Accepts piece y)
    (statement : piece.isStatement = true) (span : Span) (body : Statement.Body) :
    (s.addStatement span body).faults = s.faults ∧ (s.addStatement span body).standing = y := by
  cases accepts with
  | opening | closing | label => cases statement
  | plain free tokens => exact addStatement_free (Option.map_eq_none_iff.1 free)
  | named waits fresh =>
    obtain ⟨⟨label, token⟩, present, rfl⟩ := Option.map_eq_some_iff.1 waits
    exact addStatement_named present fresh

end

/-! ## Movements -/

section
variable {limit : Int} {s : State} {tail : List Token}

/-- A source read without a problem has the form of one. -/
theorem readSource_sound {c : Cursor} {part : SourcePart} {r : Reading}
    (found : readSource limit s c = (some part, r)) (clean : r.state.faults = s.faults) :
    ∃ read, c.rest = read ++ r.cursor.rest ∧
      ∀ source : Isa.Source, source.name = locationName part.word r.literal.isSome →
        IsSource limit.toNat read := by
  unfold readSource at found
  split at found
  · cases found
  · rename_i token rest tokens
    dsimp only at found
    split at found
    · rename_i kind
      cases found
      obtain ⟨index, behind, literal, isSome⟩ := readLiteral_sound clean
      refine ⟨token :: index, ?_, ?_⟩
      · rw [tokens, List.cons_append, ← behind]
      · intro source named
        rw [isSome] at named
        exact .location kind literal named
    · simp only [Prod.mk.injEq] at found
      obtain ⟨read, rfl⟩ := found
      obtain ⟨literal, behind, is, isSome⟩ := readLiteral_sound clean
      refine ⟨literal, behind, ?_⟩
      intro source named
      rcases is with rfl | is
      · rw [isSome] at read
        cases read
      · exact .literal is

/-- A source is read without a problem, and its name is known. -/
theorem readSource_complete {source : List Token} (is : IsSource limit.toNat source)
    (ends : Ends tail) (s : State) (last : Token) :
    ∃ part, readSource limit s ⟨last, source ++ tail⟩ = (some part, part.reading) ∧
      part.reading.state.faults = s.faults ∧ part.reading.cursor.rest = tail ∧
        (Isa.Source.ofName?
          (locationName part.word part.reading.literal.isSome)).isSome = true := by
  cases is with
  | @location token index source kind literal named =>
    obtain ⟨clean, left, isSome⟩ := readLiteral_complete literal ends s token
    refine ⟨⟨token.text, token, readLiteral limit s ⟨token, index ++ tail⟩⟩, ?_, clean, left, ?_⟩
    · simp [readSource, kind]
    · dsimp only
      rw [isSome, ← named, Isa.Source.ofName?_name]
      rfl
  | literal literal =>
    obtain ⟨clean, left, isSome⟩ := readLiteral_complete (.inr literal) ends s last
    rw [isEmpty_literal literal] at isSome
    have bare : (Isa.Source.ofName? (locationName "" true)).isSome = true := by decide +kernel
    cases source with
    | nil => exact absurd (isEmpty_literal literal) (by decide)
    | cons token rest =>
      have starts := startsLiteral_of_isLiteral literal
      have other : token.kind ≠ .location := by
        intro kind
        simp [startsLiteral, kind] at starts
      refine ⟨⟨"", token, readLiteral limit s ⟨last, token :: rest ++ tail⟩⟩, ?_, clean, left, ?_⟩
      · rw [List.cons_append] at isSome ⊢
        simp [readSource, other, isSome]
      · dsimp only
        rw [isSome]
        exact bare

variable {target : Token} {index : Option Literal} {part : SourcePart}

/-- A movement added without a problem has known locations. -/
theorem addMovement_sound
    (clean : (addMovement target index part).faults = part.reading.state.faults) :
    ∃ (destination : Isa.Destination) (source : Isa.Source) (span : Span) (body : Statement.Body),
      destination.name = locationName target.text index.isSome ∧
      source.name = locationName part.word part.reading.literal.isSome ∧
      addMovement target index part = part.reading.state.addStatement span body := by
  generalize added : addMovement target index part = next at clean ⊢
  unfold addMovement at added
  dsimp only at added
  split at added
  · rename_i destination source knownDestination knownSource
    exact ⟨destination, source, _, _, name_of_destination knownDestination,
      name_of_source knownSource, added.symm⟩
  · rename_i unknown
    subst added
    refine absurd clean ?_
    split
    · split
      · -- Both are known, which is the other case.
        rename_i source destination
        obtain ⟨source, one⟩ := Option.isSome_iff_exists.1 source
        obtain ⟨destination, other⟩ := Option.isSome_iff_exists.1 destination
        exact absurd one (unknown destination source other)
      · exact fault_ne _ _ _
    · split
      · exact fault_ne _ _ _
      · exact (State.Grows.fault _ _ _).not_clean

theorem addMovement_complete {destination : Isa.Destination}
    (named : destination.name = locationName target.text index.isSome)
    (known : (Isa.Source.ofName?
      (locationName part.word part.reading.literal.isSome)).isSome = true) :
    ∃ (span : Span) (body : Statement.Body),
      addMovement target index part = part.reading.state.addStatement span body := by
  obtain ⟨source, known⟩ := Option.isSome_iff_exists.1 known
  unfold addMovement
  rw [← named, Isa.Destination.ofName?_name, known]
  exact ⟨_, _, rfl⟩

theorem grows_addMovement (target : Token) (index : Option Literal) (part : SourcePart) :
    part.reading.state.Grows (addMovement target index part) := by
  obtain ⟨_, _, -, -, same⟩ | faulted := State.Faulted.of_addMovement target index part
  · rw [same]
    exact grows_addStatement _ _ _
  · exact faulted.grows

theorem grows_readMovement (limit : Int) (s : State) (target : Token) (rest : List Token) :
    s.Grows (readMovement limit s target rest).1 := by
  have index := (State.Reads.readLiteral limit s ⟨target, rest⟩).grows
  generalize becomes : readMovement limit s target rest = next
  have reads := readsMovement limit s target rest
  rw [becomes] at reads
  cases reads with
  | unsigned what => exact index.trans (State.Faulted.expected _ _ _).grows
  | sourceless what left found =>
    have source := (State.Reads.passage.source limit s target left).grows
    rw [found] at source
    exact source.trans (State.Faulted.expected _ _ _).grows
  | whole left equals found =>
    have source := (State.Reads.passage.source limit s target left).grows
    rw [found] at source
    exact source.trans (grows_addMovement _ _ _)

/-- A movement read without a problem has an equals sign and a source, and none of its parts has a
    problem. -/
theorem readMovement_clean {target : Token} {rest : List Token}
    (clean : (readMovement limit s target rest).1.faults = s.faults) :
    ∃ sign behind part, (readLiteral limit s ⟨target, rest⟩).cursor.rest = sign :: behind ∧
      sign.kind = .movement ∧
      readSource limit (readLiteral limit s ⟨target, rest⟩).state ⟨sign, behind⟩ =
        (some part, part.reading) ∧
      readMovement limit s target rest =
        (addMovement target (readLiteral limit s ⟨target, rest⟩).literal part,
          part.reading.cursor) ∧
      (readLiteral limit s ⟨target, rest⟩).state.faults = s.faults ∧
      part.reading.state.faults = (readLiteral limit s ⟨target, rest⟩).state.faults ∧
      (addMovement target (readLiteral limit s ⟨target, rest⟩).literal part).faults =
        part.reading.state.faults := by
  have index := (State.Reads.readLiteral limit s ⟨target, rest⟩).grows
  generalize becomes : readMovement limit s target rest = next at clean ⊢
  have reads := readsMovement limit s target rest
  rw [becomes] at reads
  cases reads with
  | unsigned what => exact absurd clean (index.expected_ne _ _)
  | sourceless what left found =>
    have whole := (State.Reads.passage.source limit s target left).grows
    rw [found] at whole
    exact absurd clean (whole.expected_ne _ _)
  | @whole sign behind part left equals found =>
    have source := (State.Reads.readSource limit (readLiteral limit s ⟨target, rest⟩).state
      ⟨sign, behind⟩).grows
    rw [found] at source
    obtain ⟨before, added⟩ := (index.trans source).clean (grows_addMovement _ _ _) clean
    obtain ⟨first, second⟩ := index.clean source before
    exact ⟨sign, behind, part, left, equals, found, rfl, first, second, added⟩

/-- A movement read without a problem is a statement that may stand there. -/
theorem readMovement_sound {target : Token} {rest : List Token} (kind : target.kind = .location)
    (clean : (readMovement limit s target rest).1.faults = s.faults) :
    ∃ tokens, target :: rest = tokens ++ (readMovement limit s target rest).2.rest ∧
      IsStatement limit.toNat tokens ∧
        s.standing.Accepts (.statement tokens) (readMovement limit s target rest).1.standing := by
  obtain ⟨sign, behind, part, left, equals, found, same, first, second, added⟩ :=
    readMovement_clean clean
  have index := (State.Reads.readLiteral limit s ⟨target, rest⟩).standing
  have source := (State.Reads.readSource limit (readLiteral limit s ⟨target, rest⟩).state
    ⟨sign, behind⟩).standing
  rw [found] at source
  obtain ⟨position, behindTarget, literal, isSome⟩ := readLiteral_sound first
  obtain ⟨tokens, behindSign, isSource⟩ := readSource_sound found second
  obtain ⟨destination, source', span, body, named, named', adds⟩ := addMovement_sound added
  rw [isSome] at named
  rw [left] at behindTarget
  dsimp only at behindTarget behindSign
  rw [same]
  refine ⟨target :: (position ++ sign :: tokens), ?_,
    .movement kind literal named equals (isSource source' named'), ?_⟩
  · rw [behindTarget, behindSign]
    simp
  · rw [adds] at added ⊢
    rw [← index, ← source]
    exact addStatement_sound rfl (fun _ => ⟨_, rfl⟩) added

/-- A movement that may stand here is read without a problem. -/
theorem readMovement_complete {target sign : Token} {position source : List Token}
    {destination : Isa.Destination} {y : Standing}
    (literal : MayBeLiteral limit.toNat position)
    (named : destination.name = locationName target.text !position.isEmpty)
    (equals : sign.kind = .movement) (sources : IsSource limit.toNat source)
    (accepts : s.standing.Accepts (.statement (target :: (position ++ sign :: source))) y)
    (ends : Ends tail) :
    s.ReadsTo y tail (readMovement limit s target (position ++ sign :: (source ++ tail))) := by
  have behind : Ends (sign :: (source ++ tail)) := by
    rintro _ ⟨⟩
    simp [startsLiteral, equals]
  have index := State.Reads.readLiteral limit s ⟨target, position ++ sign :: (source ++ tail)⟩
  obtain ⟨clean, left, isSome⟩ := readLiteral_complete literal behind s target
  generalize reading : readLiteral limit s ⟨target, position ++ sign :: (source ++ tail)⟩ = r at *
  obtain ⟨part, read, clean', left', known⟩ := readSource_complete sources ends r.state sign
  have later := State.Reads.readSource limit r.state ⟨sign, source ++ tail⟩
  rw [read] at later
  rw [← isSome] at named
  obtain ⟨span, body, added⟩ := addMovement_complete named known
  rw [← index.standing, ← later.standing] at accepts
  obtain ⟨same, standing⟩ := addStatement_complete accepts rfl span body
  unfold readMovement
  simp only [reading, left, equals, if_true, read]
  rw [added]
  exact ⟨same.trans (clean'.trans clean), standing, left'⟩

end

/-! ## Pieces -/

section
variable {limit : Int} {s : State} {token : Token} {rest : List Token}

theorem grows_addAction (s : State) (token : Token) (action : Option Isa.Action) :
    s.Grows (s.addAction token action) := by
  unfold State.addAction
  split
  · exact grows_addStatement _ _ _
  · exact .fault _ _ _

theorem grows_awaitStatement (s : State) (token : Token) : s.Grows (s.awaitStatement token) := by
  unfold State.awaitStatement
  split
  · exact .fault _ _ _
  · exact .of_eq rfl

theorem grows_closeBlock (s : State) (token : Token) : s.Grows (s.closeBlock token) := by
  unfold State.closeBlock
  split
  · exact .fault _ _ _
  · exact .of_eq rfl

theorem grows_readStatement (limit : Int) (s : State) (token : Token) (rest : List Token) :
    s.Grows (readStatement limit s token rest).1 := by
  have literal := (State.Reads.readLiteralFrom limit s token rest).grows
  have reads := readsStatement limit s token rest
  generalize readStatement limit s token rest = next at reads ⊢
  cases reads with
  | registerAction | controlAction => exact grows_addAction s token _
  | condition => exact grows_addStatement s _ _
  | label => exact grows_awaitStatement s token
  | movement => exact grows_readMovement limit s token rest
  | opening => exact .of_eq rfl
  | closing => exact grows_closeBlock s token
  | constant => exact literal.trans (grows_addStatement _ _ _)
  | unread => exact literal
  | unexpected => exact .fault _ _ _

theorem addAction_sound {action : Option Isa.Action} {tokens : List Token}
    (clean : (s.addAction token action).faults = s.faults) :
    s.standing.Accepts (.statement tokens) (s.addAction token action).standing := by
  unfold State.addAction at clean ⊢
  split at clean
  · exact addStatement_sound rfl (fun _ => ⟨_, rfl⟩) clean
  · exact absurd clean (fault_ne _ _ _)

theorem awaitStatement_sound (clean : (s.awaitStatement token).faults = s.faults) :
    s.standing.Accepts (.label token) (s.awaitStatement token).standing := by
  unfold State.awaitStatement at clean ⊢
  split at clean
  · exact absurd clean (fault_ne _ _ _)
  · rename_i free
    exact .label (by simp [State.standing, free]) token

theorem closeBlock_sound (clean : (s.closeBlock token).faults = s.faults) :
    s.standing.Accepts (.closing token) (s.closeBlock token).standing := by
  unfold State.closeBlock at clean ⊢
  split at clean
  · exact absurd clean (fault_ne _ _ _)
  · rename_i block outer inside
    exact .closing inside token

/-- What is read without a problem is a piece that may stand there. -/
theorem readStatement_sound (clean : (readStatement limit s token rest).1.faults = s.faults) :
    ∃ piece : Grammar.Piece,
      token :: rest = piece.tokens ++ (readStatement limit s token rest).2.rest ∧
        piece.Formed limit.toNat ∧
          s.standing.Accepts piece (readStatement limit s token rest).1.standing := by
  have starts (kind : token.kind = .string ∨ token.kind = .arrayStart) :
      startsLiteral token = true := by
    rcases kind with kind | kind <;> simp [startsLiteral, kind]
  have reads := readsStatement limit s token rest
  generalize readStatement limit s token rest = next at reads clean ⊢
  cases reads with
  | registerAction kind =>
    exact ⟨.statement [token], rfl, .registerAction kind, addAction_sound clean⟩
  | controlAction kind => exact ⟨.statement [token], rfl, .action kind, addAction_sound clean⟩
  | condition kind =>
    exact ⟨.statement [token], rfl, .condition kind,
      addStatement_sound rfl (fun _ => ⟨_, rfl⟩) clean⟩
  | label kind => exact ⟨.label token, rfl, kind, awaitStatement_sound clean⟩
  | movement kind =>
    obtain ⟨tokens, same, statement, accepts⟩ := readMovement_sound kind clean
    exact ⟨.statement tokens, same, statement, accepts⟩
  | opening kind => exact ⟨.opening token, rfl, kind, .opening _ token⟩
  | closing kind => exact ⟨.closing token, rfl, kind, closeBlock_sound clean⟩
  | constant waits kind =>
    have literal := State.Reads.readLiteralFrom limit s token rest
    obtain ⟨before, added⟩ := literal.grows.clean (grows_addStatement _ _ _) clean
    obtain ⟨-, tokens, same, is⟩ := readLiteralFrom_sound (starts kind) before
    refine ⟨.constant tokens, same, ⟨is, token, ?_, kind⟩, ?_⟩
    · cases tokens with
      | nil => exact absurd (isEmpty_literal is) (by decide)
      | cons first more =>
        rw [(List.cons_eq_cons.1 same).1]
        rfl
    · rw [← literal.standing]
      refine addStatement_sound rfl (fun free => ?_) added
      have waiting := congrArg Standing.waiting literal.standing
      simp only [State.standing, free, Option.map_none] at waiting
      rw [Option.map_eq_none_iff.1 waiting.symm] at waits
      cases waits
  | unread _ kind none =>
    obtain ⟨some, -⟩ := readLiteralFrom_sound (starts kind) clean
    rw [none] at some
    cases some
  | unexpected => exact absurd clean (fault_ne _ _ _)

theorem addAction_complete {action : Option Isa.Action} {piece : Grammar.Piece} {y : Standing}
    (accepts : s.standing.Accepts piece y) (statement : piece.isStatement = true)
    (acts : action.isSome = true) :
    (s.addAction token action).faults = s.faults ∧ (s.addAction token action).standing = y := by
  obtain ⟨x, rfl⟩ := Option.isSome_iff_exists.1 acts
  exact addStatement_complete accepts statement _ _

/-- A statement that may stand here is read to its end without a problem. -/
theorem readStatement_statement {y : Standing} {tail : List Token}
    (is : IsStatement limit.toNat (token :: rest))
    (accepts : s.standing.Accepts (.statement (token :: rest)) y) (acts : Acts token)
    (ends : Ends tail) :
    s.ReadsTo y tail (readStatement limit s token (rest ++ tail)) := by
  cases is with
  | registerAction kind =>
    obtain ⟨clean, standing⟩ := addAction_complete accepts rfl (acts.1 kind)
    simp only [readStatement, kind]
    exact ⟨clean, standing, rfl⟩
  | condition kind =>
    obtain ⟨clean, standing⟩ := addStatement_complete accepts rfl token.span
      (.condition (.ofMarks (token.text.toList.drop 1)))
    simp only [readStatement, kind]
    exact ⟨clean, standing, rfl⟩
  | action kind =>
    obtain ⟨clean, standing⟩ := addAction_complete accepts rfl (acts.2 kind)
    simp only [readStatement, kind]
    exact ⟨clean, standing, rfl⟩
  | movement kind literal named equals sources =>
    have read := readMovement_complete literal named equals sources accepts ends
    simp only [readStatement, kind, List.append_assoc, List.cons_append]
    exact read

/-- A constant that may stand here is read to its end without a problem. -/
theorem readStatement_constant {y : Standing} {tail : List Token}
    (is : IsConstant limit.toNat (token :: rest))
    (accepts : s.standing.Accepts (.constant (token :: rest)) y) (ends : Ends tail) :
    s.ReadsTo y tail (readStatement limit s token (rest ++ tail)) := by
  obtain ⟨is, _, ⟨⟩, kind⟩ := is
  have waits : s.waiting.isSome = true := by
    cases accepts with
    | named waits =>
      have isSome := congrArg Option.isSome waits
      rwa [State.standing, Option.isSome_map] at isSome
  have literal := State.Reads.readLiteralFrom limit s token (rest ++ tail)
  obtain ⟨-, some, clean, left⟩ := readLiteralFrom_complete is ends.noMark s
  obtain ⟨value, read⟩ := Option.isSome_iff_exists.1 some
  rw [← literal.standing] at accepts
  obtain ⟨same, standing⟩ := addStatement_complete accepts rfl value.span (.constant value)
  rcases kind with kind | kind
  all_goals
    simp only [readStatement, kind, waits, read, decide_true, Bool.true_or, Bool.or_true,
      Bool.true_and, if_true]
    exact ⟨same.trans clean, standing, left⟩

/-- A piece that may stand here is read to its end without a problem. -/
theorem readStatement_complete {piece : Grammar.Piece} {y : Standing} {tail : List Token}
    (tokens : piece.tokens = token :: rest) (formed : piece.Formed limit.toNat)
    (accepts : s.standing.Accepts piece y) (acts : Acts token)
    (ends : piece.isStatement = true → Ends tail) :
    s.ReadsTo y tail (readStatement limit s token (rest ++ tail)) := by
  cases piece with
  | opening mark =>
    cases tokens
    have kind : token.kind = .blockStart := formed
    cases accepts with
    | opening =>
      simp only [readStatement, kind]
      exact ⟨rfl, rfl, rfl⟩
    | named waits fresh statement => cases statement
  | closing mark =>
    cases tokens
    have kind : token.kind = .blockEnd := formed
    cases accepts with
    | @closing block outer inside =>
      have inside : s.outer = block :: outer := inside
      simp only [readStatement, kind, State.closeBlock, inside]
      exact ⟨rfl, rfl, rfl⟩
    | named waits fresh statement => cases statement
  | label name =>
    cases tokens
    have kind : token.kind = .label := formed
    cases accepts with
    | label free =>
      have free : s.waiting = none := Option.map_eq_none_iff.1 free
      simp only [readStatement, kind, State.awaitStatement, free]
      exact ⟨rfl, rfl, rfl⟩
    | named waits fresh statement => cases statement
  | statement tokens =>
    subst tokens
    exact readStatement_statement formed accepts acts (ends rfl)
  | constant tokens =>
    subst tokens
    exact readStatement_constant formed accepts (ends rfl)

end

/-! ## Programs -/

section
variable {limit : Int} {s : State} {tokens : List Token} {pieces : List Grammar.Piece}

theorem grows_readStatements (limit : Int) (s : State) (tokens : List Token) :
    s.Grows (readStatements limit s tokens) := by
  fun_induction readStatements limit s tokens with
  | case1 s => exact .refl s
  | case2 s token rest next ih => exact (grows_readStatement limit s token rest).trans ih

/-- Tokens read without a problem are pieces that may stand there one after the other. -/
theorem readStatements_sound (clean : (readStatements limit s tokens).faults = s.faults) :
    ∃ pieces : List Grammar.Piece, tokens = pieces.flatMap Piece.tokens ∧
      (∀ piece ∈ pieces, piece.Formed limit.toNat) ∧
        s.standing.Runs pieces (readStatements limit s tokens).standing := by
  fun_induction readStatements limit s tokens with
  | case1 s => exact ⟨[], rfl, fun _ member => absurd member List.not_mem_nil, .nil _⟩
  | case2 s token rest next ih =>
    obtain ⟨first, later⟩ :=
      (grows_readStatement limit s token rest).clean (grows_readStatements limit _ _) clean
    obtain ⟨piece, same, formed, accepts⟩ := readStatement_sound first
    obtain ⟨pieces, behind, all, runs⟩ := ih later
    refine ⟨piece :: pieces, ?_, List.forall_mem_cons.2 ⟨formed, all⟩, .cons accepts runs⟩
    rw [List.flatMap_cons, ← behind]
    exact same

theorem waiting_of_accepts {x y : Standing} {piece : Grammar.Piece} (accepts : x.Accepts piece y)
    (statement : piece.isStatement = true) : y.waiting = none := by
  cases accepts with
  | opening | closing | label => cases statement
  | plain free => exact free
  | named => rfl

/-- A piece has a first token. Unless a label must wait for the piece, the token does not go on with
    what stands before it. -/
theorem first_of_accepts {room : Nat} {x y : Standing} {piece : Grammar.Piece}
    (formed : piece.Formed room) (accepts : x.Accepts piece y) :
    ∃ token more, piece.tokens = token :: more ∧
      (x.waiting = none → startsLiteral token = false ∧ token.kind ≠ .arrayLength) := by
  cases piece with
  | opening token | closing token | label token =>
    refine ⟨token, [], rfl, fun _ => ?_⟩
    unfold Piece.Formed at formed
    simp [startsLiteral, formed]
  | statement tokens =>
    cases formed with
    | registerAction kind | condition kind | action kind | movement kind =>
      exact ⟨_, _, rfl, fun _ => by simp [startsLiteral, kind]⟩
  | constant tokens =>
    obtain ⟨-, token, first, -⟩ := formed
    obtain ⟨more, rfl⟩ := List.head?_eq_some_iff.1 first
    refine ⟨token, more, rfl, fun free => ?_⟩
    cases accepts with
    | named waits =>
      rw [free] at waits
      cases waits

/-- No piece that follows a statement goes on with it. -/
theorem ends_of_runs {room : Nat} {x y : Standing} (runs : x.Runs pieces y)
    (formed : ∀ piece ∈ pieces, piece.Formed room) (free : x.waiting = none) :
    Ends (pieces.flatMap Piece.tokens) := by
  cases runs with
  | nil => exact fun _ first => nomatch first
  | @cons _ _ _ piece rest accepts =>
    obtain ⟨token, more, tokens, other⟩ := first_of_accepts (formed _ List.mem_cons_self) accepts
    rw [List.flatMap_cons, tokens]
    rintro _ ⟨⟩
    exact other free

/-- Pieces that may stand here one after the other are read without a problem. -/
theorem readStatements_complete {y : Standing} (runs : s.standing.Runs pieces y)
    (formed : ∀ piece ∈ pieces, piece.Formed limit.toNat)
    (acts : ∀ token ∈ pieces.flatMap Piece.tokens, Acts token) :
    (readStatements limit s (pieces.flatMap Piece.tokens)).faults = s.faults ∧
      (readStatements limit s (pieces.flatMap Piece.tokens)).standing = y := by
  induction pieces generalizing s with
  | nil =>
    cases runs
    simp [readStatements]
  | cons piece rest ih =>
    obtain ⟨first, all⟩ := List.forall_mem_cons.1 formed
    cases runs with
    | cons accepts later =>
      have ends (statement : piece.isStatement = true) : Ends (rest.flatMap Piece.tokens) :=
        ends_of_runs later all (waiting_of_accepts accepts statement)
      obtain ⟨token, more, tokens, -⟩ := first_of_accepts first accepts
      rw [List.flatMap_cons, tokens, List.cons_append] at acts ⊢
      obtain ⟨clean, standing, left⟩ :=
        readStatement_complete tokens first accepts (acts token List.mem_cons_self) ends
      rw [← standing] at later
      have acts' : ∀ token ∈ rest.flatMap Piece.tokens, Acts token := fun other member =>
        acts other (List.mem_cons_of_mem _ (List.mem_append_right _ member))
      obtain ⟨clean', standing'⟩ := ih later all acts'
      rw [readStatements, left]
      exact ⟨clean'.trans clean, standing'⟩

/-- At the end there is no problem if no label waits and no block is open; without tokens, none can
    be. -/
theorem atEnd_iff : (s.atEnd tokens).faults = s.faults ↔
    s.waiting = none ∧ (s.outer = [] ∨ tokens = []) := by
  unfold State.atEnd
  cases waits : s.waiting with
  | some entry =>
    refine iff_of_false ?_ (by simp)
    dsimp only
    split
    · exact (State.Grows.fault _ _ _).not_clean
    · exact fault_ne _ _ _
  | none =>
    dsimp only
    split
    · rename_i block outer last inside some
      refine iff_of_false (fault_ne _ _ _) ?_
      rintro ⟨-, outermost | rfl⟩
      · rw [inside] at outermost
        cases outermost
      · cases some
    · rename_i closed
      refine iff_of_true rfl ⟨rfl, ?_⟩
      cases inside : s.outer with
      | nil => exact .inl rfl
      | cons block outer =>
        right
        rw [← List.getLast?_eq_none_iff]
        cases some : tokens.getLast? with
        | none => rfl
        | some last => exact absurd some (closed block outer last inside)

theorem kind_of_parseStatements : ∀ d ∈ (parseStatements limit tokens).2, d.kind = .grammar := by
  obtain ⟨faults, same, grammar⟩ :=
    (grows_readStatements limit .initial tokens).trans (State.Faulted.atEnd _ tokens).grows
  intro d member
  have among := List.mem_reverse.1 member
  rw [same, State.initial, List.append_nil] at among
  exact grammar d among

/-- Tokens whose actions are actions are parsed without a problem exactly if they make a program. -/
theorem parseStatements_eq_nil_iff (acts : ∀ token ∈ tokens, Acts token) :
    (parseStatements limit tokens).2 = [] ↔ Sentence limit.toNat tokens := by
  have reads := grows_readStatements limit .initial tokens
  have ends := (State.Faulted.atEnd (readStatements limit .initial tokens) tokens).grows
  have initial : State.initial.standing = Standing.initial := rfl
  refine List.reverse_eq_nil_iff.trans ⟨fun clean => ?_, ?_⟩
  · obtain ⟨read, closed⟩ := reads.clean ends clean
    obtain ⟨waits, outer⟩ := atEnd_iff.1 closed
    obtain ⟨pieces, same, formed, runs⟩ := readStatements_sound read
    refine ⟨pieces, same, formed, arranged_iff.2 ⟨_, runs, ?_, ?_⟩⟩
    · simp [State.standing, waits]
    · rcases outer with outer | rfl
      · exact outer
      · simp [readStatements, State.standing, State.initial]
  · rintro ⟨pieces, rfl, formed, arranged⟩
    obtain ⟨y, runs, waits, outer⟩ := arranged_iff.1 arranged
    rw [← initial] at runs
    obtain ⟨clean, standing⟩ := readStatements_complete runs formed acts
    rw [← standing] at waits outer
    exact (atEnd_iff.2 ⟨Option.map_eq_none_iff.1 waits, .inl outer⟩).trans clean

/-- Parsing reports a problem with the form of the program if reading the statements finds one. A
    label that is not there is a problem of another kind. -/
theorem problems_parse_iff : (∀ d ∈ (parse limit tokens).problems, d.kind ≠ .grammar) ↔
    (parseStatements limit tokens).2 = [] := by
  rw [problems_parse]
  constructor
  · intro other
    rw [List.eq_nil_iff_forall_not_mem]
    intro d member
    exact other d (List.mem_append_left _ member) (kind_of_parseStatements d member)
  · intro none d member
    rw [none, List.nil_append] at member
    rw [Program.kind_of_resolution _ d member]
    nofun

end

end Parser

namespace Assembly

/-- The actions that expansion leaves are actions. -/
theorem acts_expanded (source : Source) : ∀ token ∈ expanded source, Parser.Acts token := by
  obtain ⟨tokens, macros⟩ := known_lex source
  intro token member
  obtain ⟨known, plain⟩ := known_expand macros tokens token member
  exact ⟨registerAction?_isSome known plain, controlAction?_isSome known⟩

/-- The parser accepts exactly its grammar. As long as there are not more problems than are wanted,
    parsing the tokens of a source text records none with the form of the program exactly if the
    tokens are a sentence. -/
theorem parse_accepts {source : Source} {limit maxErrors : Int} {log last : Log} {p : Program}
    (unreached : (parse limit (expanded source)).run maxErrors log = (some p, last)) :
    (∃ found, last.problems.toList = log.problems.toList ++ found ∧
      ∀ d ∈ found, d.kind ≠ .grammar) ↔ Sentence limit.toNat (expanded source) := by
  have recorded := (Report.run_eq_some unreached).2
  rw [← Parser.parseStatements_eq_nil_iff (acts_expanded source), ← Parser.problems_parse_iff]
  constructor
  · rintro ⟨found, same, other⟩
    rw [recorded, List.append_cancel_left_eq] at same
    rwa [same]
  · exact fun other => ⟨_, recorded, other⟩

/-- Data in a block, named by a label before it: a sentence, whose reference to a label that nothing
    has is no matter of form. -/
theorem parse_accepts_table : ∃ p last,
    (parse 2 (expanded ⟨"table", "x: #push [1 \"a\" ~3] ~4 #pop pc = :y"⟩)).run 100 .empty =
        (some p, last) ∧
      Sentence 2 (expanded ⟨"table", "x: #push [1 \"a\" ~3] ~4 #pop pc = :y"⟩) := by
  have ends : ((parse 2 (expanded ⟨"table", "x: #push [1 \"a\" ~3] ~4 #pop pc = :y"⟩)).run 100
      .empty).1.isSome = true := by
    decide +kernel
  have kinds : ((parse 2 (expanded ⟨"table", "x: #push [1 \"a\" ~3] ~4 #pop pc = :y"⟩)).run 100
      .empty).2.problems.toList.map Diagnostic.kind = [.undefinedLabel] := by
    decide +kernel
  obtain ⟨p, parsed⟩ := Option.isSome_iff_exists.1 ends
  refine ⟨p, _, Prod.ext parsed rfl, (parse_accepts (Prod.ext parsed rfl)).1 ⟨_, rfl, ?_⟩⟩
  intro d member grammar
  have kind := List.mem_map_of_mem (f := Diagnostic.kind) member
  rw [kinds, grammar] at kind
  revert kind
  decide

end Assembly

end NineBit.Asm

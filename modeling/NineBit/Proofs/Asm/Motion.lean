import NineBit.Proofs.Asm.Places
import NineBit.Proofs.Asm.Sentences

/-!
# Reading in another block

What a literal comes to depends on its own tokens and on the path of the innermost block, which its
references carry (`Literal.move`). Read in a block with another path, and with tokens behind it that
do not go on with it, it comes to the same with that path in its references, as far as no problem is
found (`Parser.readLiteral_moved`).
-/

namespace NineBit.Asm

/-! ## Paths in literals -/

section
variable (f : BlockPath → BlockPath)

/-- The reference with another path. -/
def Reference.move (r : Reference) : Reference := { r with block := f r.block }

/-- The label with another path. -/
def Label.move (l : Label) : Label := ⟨f l.block, l.name⟩

mutual

/-- The literal with other paths in its references. -/
def Literal.move : Literal → Literal
  | .number value span => .number value span
  | .text value span => .text value span
  | .array elements span => .array (Literal.moveAll elements) span
  | .reference r => .reference (r.move f)

/-- Some literals with other paths in their references. -/
def Literal.moveAll : List Literal → List Literal
  | [] => []
  | literal :: rest => literal.move :: Literal.moveAll rest

end

/-- What a statement does, with other paths in its references. -/
def Statement.Body.move : Statement.Body → Statement.Body
  | .movement destination source destinationLiteral sourceLiteral =>
    .movement destination source (destinationLiteral.map (Literal.move f))
      (sourceLiteral.map (Literal.move f))
  | .condition c => .condition c
  | .action x => .action x
  | .constant literal => .constant (literal.move f)

theorem Literal.moveAll_eq_map (literals : List Literal) :
    Literal.moveAll f literals = literals.map (Literal.move f) := by
  induction literals with
  | nil => rfl
  | cons literal rest ih => exact congrArg (literal.move f :: ·) ih

@[simp] theorem Literal.span_move (literal : Literal) : (literal.move f).span = literal.span := by
  cases literal <;> rfl

end

namespace Parser

/-- The cursor in front of more tokens. -/
def Cursor.before (c : Cursor) (tail : List Token) : Cursor := ⟨c.last, c.rest ++ tail⟩

/-- The array with other paths in its references. -/
def OpenArray.move (f : BlockPath → BlockPath) (array : OpenArray) : OpenArray :=
  ⟨array.start, array.elements.map (Literal.move f)⟩

/-- The state with more references and with demands that have been made since. -/
def State.grown (s : State) (new : List Reference) (asked : List Demand) : State :=
  { s with
    references := new ++ s.references
    demands := asked.map (s.faults.length, ·) ++ s.demands }

/-- References written in the innermost block have been added to two states, to the second one with
    other paths, and the same has been asked of the host. -/
def State.Adds (f : BlockPath → BlockPath) (s t next other : State) : Prop :=
  ∃ (new : List Reference) (asked : List Demand), (∀ r ∈ new, r.block = s.path) ∧
    next = s.grown new asked ∧ other = t.grown (new.map (Reference.move f)) asked

/-- What has been read in two states: the same, but for the paths and for what follows. -/
structure Reading.Moves (f : BlockPath → BlockPath) (tail : List Token) (s t : State)
    (r other : Reading) : Prop where
  literal : other.literal = r.literal.map (Literal.move f)
  adds : s.Adds f t r.state other.state
  cursor : other.cursor = r.cursor.before tail

namespace State.Adds

variable {f : BlockPath → BlockPath} {s t middle between next other : State}

theorem refl (s t : State) : s.Adds f t s t :=
  ⟨[], [], fun _ member => absurd member List.not_mem_nil, rfl, rfl⟩

theorem ask (s t : State) (d : Demand) : s.Adds f t (s.ask d) (t.ask d) :=
  ⟨[], [d], fun _ member => absurd member List.not_mem_nil, rfl, rfl⟩

theorem askNumber (s t : State) (token : Token) :
    s.Adds f t (s.askNumber token) (t.askNumber token) := ask s t _

theorem trans (first : s.Adds f t middle between) (second : middle.Adds f between next other) :
    s.Adds f t next other := by
  obtain ⟨early, asked, here, rfl, rfl⟩ := first
  obtain ⟨late, later, there, rfl, rfl⟩ := second
  refine ⟨late ++ early, later ++ asked, List.forall_mem_append.2 ⟨there, here⟩, ?_, ?_⟩
  · unfold State.grown
    rw [List.map_append, List.append_assoc, List.append_assoc]
  · unfold State.grown
    rw [List.map_append, List.map_append, List.append_assoc, List.append_assoc]

theorem path (adds : s.Adds f t next other) (paths : t.path = f s.path) :
    other.path = f next.path := by
  obtain ⟨new, asked, -, rfl, rfl⟩ := adds
  exact paths

theorem faults (adds : s.Adds f t next other) :
    next.faults = s.faults ∧ other.faults = t.faults := by
  obtain ⟨new, asked, -, rfl, rfl⟩ := adds
  exact ⟨rfl, rfl⟩

theorem refer (paths : t.path = f s.path) (token : Token) :
    (t.refer token).1 = (s.refer token).1.move f ∧
      s.Adds f t (s.refer token).2 (t.refer token).2 := by
  have same : (⟨String.ofList (token.text.toList.drop 1), t.path, token.span⟩ : Reference) =
      Reference.move f ⟨String.ofList (token.text.toList.drop 1), s.path, token.span⟩ := by
    rw [paths]
    rfl
  refine ⟨congrArg Literal.reference same, [_], [], List.forall_mem_singleton.2 rfl, rfl, ?_⟩
  exact congrArg (fun r => { t with references := r :: t.references }) same

end State.Adds

/-! ## Length marks -/

section
variable {f : BlockPath → BlockPath} {limit : Int} {s t : State} {tail : List Token}

/-- What a length mark comes to in two states. -/
structure Length.Moves (f : BlockPath → BlockPath) (tail : List Token) (s t : State)
    (length other : Length) : Prop where
  wanted : other.wanted = length.wanted
  adds : s.Adds f t length.state other.state
  cursor : other.cursor = length.cursor.before tail

theorem readLength_moved {c : Cursor} (clean : (readLength s c).state.faults = s.faults)
    (ends : NoMark tail) :
    (readLength s c).Moves f tail s t (readLength t (c.before tail)) := by
  obtain ⟨last, rest⟩ := c
  cases rest with
  | nil =>
    unfold Cursor.before readLength
    dsimp only
    rw [List.nil_append]
    cases tail with
    | nil => exact ⟨rfl, .refl s t, rfl⟩
    | cons token more =>
      dsimp only
      rw [if_pos (ends token rfl)]
      exact ⟨rfl, .refl s t, rfl⟩
  | cons mark rest =>
    unfold readLength at clean ⊢
    unfold Cursor.before
    dsimp only at clean ⊢
    rw [List.cons_append]
    dsimp only
    by_cases marks : mark.kind ≠ .arrayLength
    · rw [if_pos marks, if_pos marks]
      exact ⟨rfl, .refl s t, rfl⟩
    · rw [if_neg marks] at clean ⊢
      rw [if_neg marks]
      cases rest with
      | nil => exact absurd clean (expected_ne _ _ _)
      | cons number more =>
        dsimp only at clean ⊢
        rw [List.cons_append]
        dsimp only
        by_cases numeral : number.kind = .number
        · rw [if_pos numeral, if_pos numeral]
          exact ⟨rfl, .askNumber s t number, rfl⟩
        · rw [if_neg numeral] at clean
          exact absurd clean (expected_ne _ _ _)

/-- What the size that a length mark asks for comes to in two states. -/
structure Size.Moves (f : BlockPath → BlockPath) (tail : List Token) (s t : State)
    (size other : Size) : Prop where
  missing : other.missing = size.missing
  mark : other.mark = size.mark
  adds : s.Adds f t size.state other.state
  cursor : other.cursor = size.cursor.before tail

theorem readSize_moved {c : Cursor} {size : Nat} {short : ParseFault} {demand : Nat → Demand}
    (clean : (readSize s c size short demand).state.faults = s.faults) (ends : NoMark tail) :
    (readSize s c size short demand).Moves f tail s t
      (readSize t (c.before tail) size short demand) := by
  have grows := (State.Faulted.readLength s c).grows
  have moved (quiet : (readLength s c).state.faults = s.faults) :=
    readLength_moved (f := f) (t := t) quiet ends
  unfold readSize at clean ⊢
  dsimp only at clean ⊢
  cases found : (readLength s c).wanted with
  | none =>
    rw [found] at clean
    obtain ⟨wanted, adds, cursor⟩ := moved clean
    rw [wanted, found]
    exact ⟨rfl, rfl, adds, cursor⟩
  | some length =>
    rw [found] at clean
    dsimp only at clean ⊢
    by_cases enough : size ≤ length.1
    · rw [if_pos enough] at clean ⊢
      obtain ⟨wanted, adds, cursor⟩ := moved clean
      rw [wanted, found]
      dsimp only
      rw [if_pos enough]
      exact ⟨rfl, rfl, adds.trans (.ask _ _ _), cursor⟩
    · rw [if_neg enough] at clean
      exact absurd (grows.clean (.fault _ _ _) clean).2 (fault_ne _ _ _)

/-- A string, or an array that is closed, in two states. -/
structure Closed.Moves (f : BlockPath → BlockPath) (tail : List Token) (s t : State)
    (r other : Literal × State × Cursor) : Prop where
  literal : other.1 = r.1.move f
  adds : s.Adds f t r.2.1 other.2.1
  cursor : other.2.2 = r.2.2.before tail

theorem readText_moved {token : Token} {rest : List Token}
    (clean : (readText s token rest).2.1.faults = s.faults) (ends : NoMark tail) :
    Closed.Moves f tail s t (readText s token rest) (readText t token (rest ++ tail)) := by
  rw [readText_eq] at clean ⊢
  obtain ⟨missing, -, adds, cursor⟩ := readSize_moved (f := f) (t := t) clean ends
  unfold Cursor.before at missing adds cursor
  rw [readText_eq]
  refine ⟨?_, adds, cursor⟩
  dsimp only at missing cursor ⊢
  rw [missing, cursor]
  rfl

theorem closeArray_moved {array : OpenArray} {bracket : Token} {rest : List Token}
    (clean : (closeArray s array bracket rest).2.1.faults = s.faults) (ends : NoMark tail) :
    Closed.Moves f tail s t (closeArray s array bracket rest)
      (closeArray t (array.move f) bracket (rest ++ tail)) := by
  have count : (array.move f).elements.length = array.elements.length := List.length_map _
  have filled (n : Nat) (mark : Span) :
      (array.move f).elements.reverse ++ List.replicate n (.number 0 mark) =
        Literal.moveAll f (array.elements.reverse ++ List.replicate n (.number 0 mark)) := by
    rw [Literal.moveAll_eq_map, List.map_append, List.map_reverse, List.map_replicate]
    rfl
  rw [closeArray_eq] at clean ⊢
  obtain ⟨missing, mark, adds, cursor⟩ := readSize_moved (f := f) (t := t) clean ends
  unfold Cursor.before at missing mark adds cursor
  rw [closeArray_eq, count]
  refine ⟨?_, adds, cursor⟩
  dsimp only at missing mark cursor ⊢
  rw [missing, mark, cursor, filled]
  rfl

/-! ## Literals -/

theorem readArray_moved (limit : Int) (s : State) (top : OpenArray) (outer : List OpenArray)
    (last : Token) (tokens : List Token) (ends : NoMark tail) : ∀ {t : State}, t.path = f s.path →
    (readArray limit s top outer last tokens).state.faults = s.faults →
    (readArray limit s top outer last tokens).Moves f tail s t
      (readArray limit t (top.move f) (outer.map (OpenArray.move f)) last (tokens ++ tail)) := by
  fun_induction readArray limit s top outer last tokens with
  | case1 s top outer last =>
    intro t paths clean
    exact absurd clean (State.Faulted.unclosed last outer _).grows.not_clean
  | case2 s top outer last token rest kind literal =>
    rename_i ih
    intro t paths clean
    rw [List.cons_append, readArray_number kind]
    have adds := State.Adds.askNumber (f := f) s t token
    have read := ih (adds.path paths) clean
    exact ⟨read.literal, adds.trans read.adds, read.cursor⟩
  | case3 s top outer last token rest kind literal next referred ih =>
    intro t paths clean
    obtain ⟨same, adds⟩ := State.Adds.refer (f := f) paths token
    rw [referred] at same adds
    rw [List.cons_append, readArray_reference kind, same]
    have read := ih (adds.path paths) (clean.trans adds.faults.1.symm)
    exact ⟨read.literal, adds.trans read.adds, read.cursor⟩
  | case4 s top outer last token rest kind r =>
    rename_i ih
    intro t paths clean
    have first := (State.Faulted.readText s token rest).grows
    obtain ⟨quiet, later⟩ := first.clean (State.Reads.readArray limit _ _ _ _ _).grows clean
    have moves := readText_moved (f := f) (t := t) quiet ends
    rw [List.cons_append, readArray_string kind, moves.literal, moves.cursor]
    have read := ih (moves.adds.path paths) later
    exact ⟨read.literal, moves.adds.trans read.adds, read.cursor⟩
  | case5 s top outer last token rest kind deep c =>
    intro t paths clean
    exact absurd clean (State.Reads.readArray limit _ _ _ _ _).grows.not_clean
  | case6 s top outer last token rest kind asked shallow =>
    rename_i ih
    intro t paths clean
    have high : ¬limit ≤ (outer.map (OpenArray.move f)).length + 1 := by
      rw [List.length_map]
      exact shallow
    rw [List.cons_append, readArray_start kind _ _ _ _ _ high, List.length_map]
    have adds := State.Adds.ask (f := f) s t (.nesting (outer.length + 2))
    have read := ih (adds.path paths) clean
    exact ⟨read.literal, adds.trans read.adds, read.cursor⟩
  | case7 s top last token rest kind =>
    intro t paths clean
    have moves := closeArray_moved (f := f) (t := t) clean ends
    rw [List.cons_append, List.map_nil, readArray_end_last kind]
    exact ⟨congrArg some moves.literal, moves.adds, moves.cursor⟩
  | case8 s top last token rest kind r around further =>
    rename_i ih
    intro t paths clean
    have first := (State.Faulted.closeArray s top token rest).grows
    obtain ⟨quiet, later⟩ := first.clean (State.Reads.readArray limit _ _ _ _ _).grows clean
    have moves := closeArray_moved (f := f) (t := t) quiet ends
    rw [List.cons_append, List.map_cons, readArray_end kind, moves.literal, moves.cursor]
    have read := ih (moves.adds.path paths) later
    exact ⟨read.literal, moves.adds.trans read.adds, read.cursor⟩
  | case9 s top outer last token rest _ _ _ _ _ ih =>
    intro t paths clean
    exact absurd clean (State.Reads.readArray limit _ _ _ _ _).grows.not_clean

theorem readLiteralFrom_moved {token : Token} {rest : List Token} (paths : t.path = f s.path)
    (clean : (readLiteralFrom limit s token rest).state.faults = s.faults) (ends : NoMark tail) :
    (readLiteralFrom limit s token rest).Moves f tail s t
      (readLiteralFrom limit t token (rest ++ tail)) := by
  unfold readLiteralFrom at clean ⊢
  cases kind : token.kind
  case number =>
    exact ⟨rfl, .askNumber s t token, rfl⟩
  case reference =>
    obtain ⟨same, adds⟩ := State.Adds.refer (f := f) paths token
    exact ⟨congrArg some same, adds, rfl⟩
  case string =>
    rw [kind] at clean
    have moves := readText_moved (f := f) (t := t) clean ends
    exact ⟨congrArg some moves.literal, moves.adds, moves.cursor⟩
  all_goals
    rw [kind] at clean
    dsimp only at clean ⊢
    by_cases high : limit ≤ 0
    · rw [if_pos high] at clean
      exact absurd clean (fault_ne _ _ _)
    · rw [if_neg high] at clean ⊢
      rw [if_neg high]
      have adds := State.Adds.ask (f := f) s t (.nesting 1)
      have read := readArray_moved limit (s.ask (.nesting 1)) ⟨token, []⟩ [] token rest ends
        (adds.path paths) clean
      exact ⟨read.literal, adds.trans read.adds, read.cursor⟩

theorem readLiteral_moved {c : Cursor} (paths : t.path = f s.path)
    (clean : (readLiteral limit s c).state.faults = s.faults) (ends : Ends tail) :
    (readLiteral limit s c).Moves f tail s t (readLiteral limit t (c.before tail)) := by
  obtain ⟨last, rest⟩ := c
  unfold readLiteral at clean ⊢
  unfold Cursor.before
  dsimp only at clean ⊢
  cases rest with
  | nil =>
    dsimp only
    rw [List.nil_append]
    cases tail with
    | nil => exact ⟨rfl, .refl _ _, rfl⟩
    | cons token more =>
      dsimp only
      rw [if_neg (Bool.eq_false_iff.1 (ends token rfl).1)]
      exact ⟨rfl, .refl _ _, rfl⟩
  | cons token rest =>
    dsimp only at clean ⊢
    rw [List.cons_append]
    dsimp only
    by_cases starts : startsLiteral token = true
    · rw [if_pos starts] at clean ⊢
      rw [if_pos starts]
      exact readLiteralFrom_moved paths clean ends.noMark
    · rw [if_neg starts, if_neg starts]
      exact ⟨rfl, .refl _ _, rfl⟩

/-! ## Statements -/

theorem readSource_moved {c : Cursor} {part : SourcePart} {r : Reading} (paths : t.path = f s.path)
    (found : readSource limit s c = (some part, r)) (clean : r.state.faults = s.faults)
    (ends : Ends tail) : ∃ other, r.Moves f tail s t other ∧
      readSource limit t (c.before tail) = (some ⟨part.word, part.token, other⟩, other) := by
  obtain ⟨last, rest⟩ := c
  unfold readSource at found ⊢
  unfold Cursor.before
  dsimp only at found ⊢
  cases rest with
  | nil => cases found
  | cons token rest =>
    dsimp only at found
    rw [List.cons_append]
    dsimp only
    by_cases kind : token.kind = .location
    · rw [if_pos kind] at found ⊢
      cases found
      have read := readLiteral_moved (f := f) (t := t) (c := ⟨token, rest⟩) paths clean ends
      exact ⟨_, read, rfl⟩
    · rw [if_neg kind] at found ⊢
      simp only [Prod.mk.injEq] at found
      obtain ⟨literal, rfl⟩ := found
      have read := readLiteral_moved (f := f) (t := t) (c := ⟨last, token :: rest⟩) paths clean ends
      split at literal
      · rename_i some
        cases literal
        have isSome : (readLiteral limit t ⟨last, token :: (rest ++ tail)⟩).literal.isSome = true :=
          (congrArg Option.isSome read.literal).trans (Option.isSome_map.trans some)
        refine ⟨_, read, ?_⟩
        rw [if_pos isSome]
        rfl
      · cases literal

/-- A movement whose locations are known is a statement. -/
theorem addMovement_of_known {target : Token} {index : Option Literal} (part : SourcePart)
    {destination : Isa.Destination} {source : Isa.Source}
    (place : Isa.Destination.ofName? (locationName target.text index.isSome) = some destination)
    (origin : Isa.Source.ofName? (locationName part.word part.reading.literal.isSome) =
      some source) :
    addMovement target index part =
      part.reading.state.addStatement (target.span.through part.reading.cursor.last.span)
        (.movement destination source index part.reading.literal) := by
  unfold addMovement
  dsimp only
  rw [place, origin]

/-- What reads a statement in two states adds the same one to both, but for the paths. -/
def Both (f : BlockPath → BlockPath) (tail : List Token) (s t : State)
    (read other : State × Cursor) : Prop :=
  ∃ (next after : State) (span : Span) (body : Statement.Body) (c : Cursor),
    s.Adds f t next after ∧ read = (next.addStatement span body, c) ∧
      other = (after.addStatement span (body.move f), c.before tail)

theorem readMovement_moved {target : Token} {rest : List Token} (paths : t.path = f s.path)
    (clean : (readMovement limit s target rest).1.faults = s.faults) (ends : Ends tail) :
    Both f tail s t (readMovement limit s target rest)
      (readMovement limit t target (rest ++ tail)) := by
  obtain ⟨sign, behind, part, left, equals, found, same, first, second, added⟩ :=
    readMovement_clean clean
  obtain ⟨literal, adds, cursor⟩ : (readLiteral limit s ⟨target, rest⟩).Moves f tail s t
      (readLiteral limit t ⟨target, rest ++ tail⟩) := readLiteral_moved paths first ends
  obtain ⟨other, ⟨literal', adds', cursor'⟩, found'⟩ :=
    readSource_moved (f := f) (adds.path paths) found second ends
  obtain ⟨destination, source, -, -, named, named', -⟩ := addMovement_sound added
  have place := Isa.Destination.ofName?_name destination
  have origin := Isa.Source.ofName?_name source
  rw [named] at place
  rw [named'] at origin
  refine ⟨_, _, _, _, part.reading.cursor, adds.trans adds',
    same.trans (congrArg (·, _) (addMovement_of_known part place origin)), ?_⟩
  unfold readMovement
  unfold Cursor.before at cursor found' ⊢
  dsimp only at cursor found' ⊢
  rw [cursor, left, List.cons_append]
  dsimp only
  rw [if_pos equals, found']
  dsimp only
  rw [← Option.isSome_map (f := Literal.move f), ← literal] at place
  rw [← Option.isSome_map (f := Literal.move f), ← literal'] at origin
  rw [addMovement_of_known ⟨part.word, part.token, other⟩ place origin, cursor', literal, literal']
  rfl

/-- A statement that is added to two states with an action. -/
theorem addAction_moved {token : Token} {rest : List Token} {action : Option Isa.Action}
    (clean : (s.addAction token action).faults = s.faults) :
    Both f tail s t (s.addAction token action, ⟨token, rest⟩)
      (t.addAction token action, ⟨token, rest ++ tail⟩) := by
  cases action with
  | none => exact absurd clean (fault_ne _ _ _)
  | some x => exact ⟨s, t, token.span, .action x, ⟨token, rest⟩, .refl s t, rfl, rfl⟩

/-- A statement that is read without a problem is read in another block, too. -/
theorem readStatement_moved {token : Token} {rest : List Token} (paths : t.path = f s.path)
    (waiting : t.waiting.isSome = s.waiting.isSome) (label : token.kind ≠ .label)
    (start : token.kind ≠ .blockStart) (stop : token.kind ≠ .blockEnd)
    (clean : (readStatement limit s token rest).1.faults = s.faults) (ends : Ends tail) :
    Both f tail s t (readStatement limit s token rest)
      (readStatement limit t token (rest ++ tail)) := by
  unfold readStatement at clean ⊢
  cases kind : token.kind
  case registerAction | action =>
    rw [kind] at clean
    exact addAction_moved clean
  case condition => exact ⟨s, t, _, _, ⟨token, rest⟩, .refl s t, rfl, rfl⟩
  case location =>
    rw [kind] at clean
    exact readMovement_moved paths clean ends
  case label | blockStart | blockEnd => contradiction
  all_goals
    rw [kind] at clean
    dsimp only at clean ⊢
    rw [waiting]
    split at clean
    · rename_i constant
      rw [if_pos constant, if_pos constant]
      have starts : startsLiteral token = true := by
        unfold startsLiteral
        rw [kind]
        revert constant
        cases s.waiting.isSome <;> decide
      cases found : (readLiteralFrom limit s token rest).literal with
      | none =>
        rw [found] at clean
        obtain ⟨some, -⟩ := readLiteralFrom_sound starts clean
        rw [found] at some
        cases some
      | some literal =>
        rw [found] at clean
        have grows := (State.Reads.readLiteralFrom limit s token rest).grows
        obtain ⟨quiet, -⟩ := grows.clean (grows_addStatement _ _ _) clean
        obtain ⟨same, adds, cursor⟩ :=
          readLiteralFrom_moved (f := f) (t := t) paths quiet ends.noMark
        rw [found] at same
        rw [same, cursor]
        dsimp only [Option.map_some]
        rw [Literal.span_move]
        exact ⟨_, _, _, .constant literal, _, adds, rfl, rfl⟩
    · exact absurd clean (fault_ne _ _ _)

end

end Parser

end NineBit.Asm

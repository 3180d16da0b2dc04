import NineBit.Asm.Parser
import NineBit.Proofs.Host

/-!
# Reporting problems

Problems are only ever added (`Parser.State.Grows`), so that a state with no new problem had none on
the way to it. What the parser does with a mark of length, a string, the end of an array or the end
of the program adds problems and demands to the state and does nothing else
(`Parser.State.Faulted`), and the demands are refused for their size only. A mark of length does to
a string what it does to an array: it fills them up, or is too short (`Parser.readSize`).
-/

namespace NineBit.Asm.Parser

/-! ## Sizes -/

/-- What a mark of length says about something of a size: how many more there have to be, and where
    it is written. -/
structure Size where
  missing : Nat
  mark : Span
  state : State
  cursor : Cursor

/-- Reads an optional mark of length behind something of a size, which must not be greater. What the
    length asks of the host is up to the thing. -/
def readSize (s : State) (c : Cursor) (size : Nat) (short : ParseFault) (demand : Nat → Demand) :
    Size :=
  let length := readLength s c
  match length.wanted with
  | none => ⟨0, c.last.span, length.state, length.cursor⟩
  | some (wanted, mark) =>
    if size ≤ wanted then
      ⟨filling (wanted - size), mark.span, length.state.ask (demand wanted), length.cursor⟩
    else ⟨0, mark.span, length.state.fault short mark.span, length.cursor⟩

/-- A string is filled up with NUL characters. -/
theorem readText_eq (s : State) (token : Token) (rest : List Token) :
    readText s token rest =
      let size := readSize s ⟨token, rest⟩ token.text.length .shortText fun wanted =>
        .sequence (wanted - token.text.length)
      (.text (token.text ++ String.ofList (List.replicate size.missing closingNul))
        (token.span.through size.cursor.last.span), size.state, size.cursor) := by
  have full : token.text ++ String.ofList (List.replicate 0 closingNul) = token.text :=
    String.append_empty
  unfold readText readSize
  dsimp only
  cases (readLength s ⟨token, rest⟩).wanted with
  | none => rw [full]
  | some length =>
    dsimp only
    split
    · rfl
    · rw [full]

/-- An array is filled up with zeros. -/
theorem closeArray_eq (s : State) (array : OpenArray) (bracket : Token) (rest : List Token) :
    closeArray s array bracket rest =
      let size := readSize s ⟨bracket, rest⟩ array.elements.length .shortArray .growth
      (.array (array.elements.reverse ++ List.replicate size.missing (.number 0 size.mark))
        (array.start.span.through size.cursor.last.span), size.state, size.cursor) := by
  unfold closeArray readSize
  dsimp only
  rw [List.length_reverse]
  cases (readLength s ⟨bracket, rest⟩).wanted with
  | none => rw [List.replicate_zero, List.append_nil]
  | some length =>
    dsimp only
    split
    · rfl
    · rw [List.replicate_zero, List.append_nil]

/-! ## Problems -/

/-- Problems with the form of the program have been added. -/
def State.Grows (s next : State) : Prop :=
  ∃ more : List Diagnostic, next.faults = more ++ s.faults ∧ ∀ d ∈ more, d.kind = .grammar

namespace State.Grows

variable {s middle next : State}

theorem refl (s : State) : s.Grows s := ⟨[], rfl, fun _ member => absurd member List.not_mem_nil⟩

theorem of_eq (same : next.faults = s.faults) : s.Grows next :=
  ⟨[], same, fun _ member => absurd member List.not_mem_nil⟩

theorem trans (first : s.Grows middle) (second : middle.Grows next) : s.Grows next := by
  obtain ⟨early, before, grammar⟩ := first
  obtain ⟨late, after, grammar'⟩ := second
  refine ⟨late ++ early, by rw [after, before, List.append_assoc], fun d member => ?_⟩
  rcases List.mem_append.1 member with later | earlier
  · exact grammar' d later
  · exact grammar d earlier

theorem fault (s : State) (f : ParseFault) (span : Span) : s.Grows (s.fault f span) :=
  ⟨[_], rfl, fun d member => by rw [List.mem_singleton.1 member]⟩

/-- What ends with no new problem had none on its way. -/
theorem clean (first : s.Grows middle) (second : middle.Grows next)
    (clean : next.faults = s.faults) : middle.faults = s.faults ∧ next.faults = middle.faults := by
  obtain ⟨early, before, -⟩ := first
  obtain ⟨late, after, -⟩ := second
  have none : late ++ early = [] := by
    have lengths := congrArg List.length clean
    rw [after, before] at lengths
    simp only [List.length_append] at lengths
    exact List.eq_nil_of_length_eq_zero (by rw [List.length_append]; omega)
  obtain ⟨rfl, rfl⟩ := List.append_eq_nil_iff.1 none
  exact ⟨before, after⟩

/-- A problem stays. -/
theorem not_clean {f : ParseFault} {span : Span} (later : (s.fault f span).Grows next) :
    next.faults ≠ s.faults := by
  intro clean
  have same := ((fault s f span).clean later clean).1
  exact absurd (congrArg List.length same) (by simp [State.fault])

end State.Grows

theorem fault_ne (s : State) (f : ParseFault) (span : Span) :
    (s.fault f span).faults ≠ s.faults := (State.Grows.refl _).not_clean

theorem expected_ne (s : State) (what : String) (c : Cursor) :
    (s.expected what c).faults ≠ s.faults := by
  unfold State.expected
  split <;> exact fault_ne _ _ _

/-- What has been asked of the host since is refused for its size only. -/
def State.Asks (s next : State) : Prop :=
  ∀ made ∈ next.demands, made ∈ s.demands ∨ made.2.Sized

theorem State.Asks.trans {s middle next : State} (first : s.Asks middle)
    (second : middle.Asks next) : s.Asks next :=
  fun made member => (second made member).elim (first made) .inr

theorem State.Asks.of_eq {s next : State} (same : next.demands = s.demands) : s.Asks next :=
  fun _ member => .inl (same ▸ member)

/-- Nothing has been added but problems and demands. -/
structure State.Faulted (s next : State) : Prop where
  grows : s.Grows next
  asks : s.Asks next
  rest : ∃ faults demands, next = { s with faults := faults, demands := demands }

namespace State.Faulted

variable {s middle next : State}

theorem refl (s : State) : s.Faulted s := ⟨.refl s, .of_eq rfl, s.faults, s.demands, rfl⟩

theorem trans (first : s.Faulted middle) (second : middle.Faulted next) : s.Faulted next := by
  refine ⟨first.grows.trans second.grows, first.asks.trans second.asks, ?_⟩
  obtain ⟨-, -, _, _, rfl⟩ := first
  obtain ⟨-, -, faults, demands, rfl⟩ := second
  exact ⟨faults, demands, rfl⟩

theorem fault (s : State) (f : ParseFault) (span : Span) : s.Faulted (s.fault f span) :=
  ⟨.fault s f span, .of_eq rfl, _, _, rfl⟩

theorem ask (s : State) {d : Demand} (sized : d.Sized) : s.Faulted (s.ask d) := by
  refine ⟨.of_eq rfl, fun made member => ?_, _, _, rfl⟩
  rcases List.mem_cons.1 member with rfl | old
  · exact .inr sized
  · exact .inl old

theorem askNumber (s : State) (token : Token) : s.Faulted (s.askNumber token) := ask s (.numeral _)

theorem expected (s : State) (what : String) (c : Cursor) : s.Faulted (s.expected what c) := by
  unfold State.expected
  split
  · exact fault s _ _
  · exact fault s _ _

theorem readLength (s : State) (c : Cursor) : s.Faulted (readLength s c).state := by
  unfold Parser.readLength
  split
  · exact refl s
  · split
    · exact refl s
    · split
      · dsimp only
        exact expected s _ _
      · split
        · exact askNumber s _
        · dsimp only
          exact expected s _ _

theorem readSize (s : State) (c : Cursor) (size : Nat) (short : ParseFault)
    {demand : Nat → Demand} (sized : ∀ n, (demand n).Sized) :
    s.Faulted (readSize s c size short demand).state := by
  have length := readLength s c
  unfold Parser.readSize
  dsimp only
  split
  · exact length
  · split
    · exact length.trans (ask _ (sized _))
    · exact length.trans (fault _ _ _)

theorem readText (s : State) (token : Token) (rest : List Token) :
    s.Faulted (readText s token rest).2.1 := by
  rw [readText_eq]
  exact readSize _ _ _ _ fun _ => .sequence _

theorem closeArray (s : State) (array : OpenArray) (bracket : Token) (rest : List Token) :
    s.Faulted (closeArray s array bracket rest).2.1 := by
  rw [closeArray_eq]
  exact readSize _ _ _ _ .growth

theorem unclosed (last : Token) : ∀ (opened : List OpenArray) (s : State),
    s.Faulted (s.unclosed last opened)
  | [], s => refl s
  | _ :: outer, s => (fault s _ _).trans (unclosed last outer _)

theorem badLocation (s : State) (known : String → Bool) (role bare : String) (indexed : Bool)
    (token : Token) : s.Faulted (s.badLocation known role bare indexed token) := fault s _ _

theorem atEnd (s : State) (tokens : List Token) : s.Faulted (s.atEnd tokens) := by
  unfold State.atEnd
  dsimp only
  split
  all_goals split
  · exact (fault _ _ _).trans (fault _ _ _)
  · exact fault _ _ _
  · exact fault _ _ _
  · exact refl _

/-- A movement is a statement if both its locations are known, and otherwise a problem for each one
    that is not. -/
theorem of_addMovement (target : Token) (index : Option Literal) (part : SourcePart) :
    (∃ destination source,
      Isa.Destination.ofName? (locationName target.text index.isSome) = some destination ∧
      Isa.Source.ofName? (locationName part.word part.reading.literal.isSome) = some source ∧
      addMovement target index part =
        part.reading.state.addStatement (target.span.through part.reading.cursor.last.span)
          (.movement destination source index part.reading.literal)) ∨
      part.reading.state.Faulted (addMovement target index part) := by
  unfold Parser.addMovement
  dsimp only
  split
  · rename_i destination source place origin
    exact .inl ⟨destination, source, place, origin, rfl⟩
  · right
    split
    all_goals split
    · exact refl _
    · exact badLocation _ _ _ _ _ _
    · exact badLocation _ _ _ _ _ _
    · exact (badLocation _ _ _ _ _ _).trans (badLocation _ _ _ _ _ _)

end State.Faulted

/-- A problem with what comes next stays, whatever came before it. -/
theorem State.Grows.expected_ne {s middle : State} (grows : s.Grows middle) (what : String)
    (c : Cursor) : (middle.expected what c).faults ≠ s.faults := fun clean =>
  Parser.expected_ne middle what c
    (grows.clean (State.Faulted.expected middle what c).grows clean).2

end NineBit.Asm.Parser

import NineBit.Proofs.Asm.Readers

/-!
# What reading a literal gathers

Reading a literal records the references in it, each time that one occurs, in the order of the text,
and nests arrays no deeper than they may be (`Parser.Reading.Collects`). While arrays are open, this
is true of what has been read in all of them together (`Parser.Gathers`): an array that is closed
has the references it had while it was open, and one that is dropped takes its own with it, so that
what is kept of a half-read literal is in order, too.
-/

namespace NineBit.Asm

/-! ## Literals -/

mutual

/-- The references in a literal, at any depth. -/
def Literal.mentions : Literal → List Reference
  | .number _ _ | .text _ _ => []
  | .array elements _ => Literal.mentionsOf elements
  | .reference r => [r]

/-- The references in some literals. -/
def Literal.mentionsOf : List Literal → List Reference
  | [] => []
  | literal :: rest => literal.mentions ++ Literal.mentionsOf rest

end

theorem Literal.mem_mentionsOf {r : Reference} : ∀ {literals : List Literal},
    r ∈ Literal.mentionsOf literals ↔ ∃ literal ∈ literals, r ∈ literal.mentions
  | [] => ⟨fun member => absurd member List.not_mem_nil, fun ⟨_, member, _⟩ =>
      absurd member List.not_mem_nil⟩
  | first :: rest => by
    unfold Literal.mentionsOf
    simp only [List.mem_append, Literal.mem_mentionsOf, List.mem_cons, or_and_right, exists_or,
      exists_eq_left]

mutual

/-- How deep arrays are nested in a literal. -/
def Literal.depth : Literal → Nat
  | .number _ _ | .text _ _ | .reference _ => 0
  | .array elements _ => Literal.depthOf elements + 1

/-- How deep arrays are nested in some literals. -/
def Literal.depthOf : List Literal → Nat
  | [] => 0
  | literal :: rest => max literal.depth (Literal.depthOf rest)

end

theorem Literal.depthOf_le_iff {bound : Nat} : ∀ {literals : List Literal},
    Literal.depthOf literals ≤ bound ↔ ∀ literal ∈ literals, literal.depth ≤ bound
  | [] => by simp [Literal.depthOf]
  | first :: rest => by
    simp only [Literal.depthOf, Nat.max_le, Literal.depthOf_le_iff, List.forall_mem_cons]

theorem Literal.mentionsOf_append : ∀ literals more : List Literal,
    Literal.mentionsOf (literals ++ more) = Literal.mentionsOf literals ++ Literal.mentionsOf more
  | [], _ => rfl
  | first :: rest, more => by
    simp only [List.cons_append, Literal.mentionsOf, Literal.mentionsOf_append, List.append_assoc]

namespace Parser

variable {s middle next : State} {found more : List Reference}

/-- Nothing but references has been recorded, and perhaps problems; these references are among the
    new ones, one for each time that they occur, in this order. -/
structure State.Collects (s next : State) (found : List Reference) : Prop where
  statements : next.statements = s.statements
  references : ∃ new, next.references = new ++ s.references ∧ found.reverse.Sublist new

namespace State.Collects

theorem refl (s : State) : s.Collects s [] := ⟨rfl, [], rfl, .slnil⟩

theorem trans (first : s.Collects middle found) (second : middle.Collects next more) :
    s.Collects next (found ++ more) := by
  refine ⟨second.statements.trans first.statements, ?_⟩
  obtain ⟨early, before, inside⟩ := first.references
  obtain ⟨late, after, inside'⟩ := second.references
  refine ⟨late ++ early, ?_, ?_⟩
  · rw [after, before, List.append_assoc]
  · rw [List.reverse_append]
    exact inside'.append inside

/-- Some of what has been found may be forgotten. -/
theorem forget (collects : s.Collects next found) (fewer : more.Sublist found) :
    s.Collects next more := by
  obtain ⟨new, same, inside⟩ := collects.references
  exact ⟨collects.statements, new, same, fewer.reverse.trans inside⟩

theorem of_faulted (faulted : s.Faulted next) : s.Collects next [] := by
  obtain ⟨-, -, faults, demands, rfl⟩ := faulted
  exact ⟨rfl, [], rfl, .slnil⟩

theorem faulted (collects : s.Collects middle found) (faulted : middle.Faulted next) :
    s.Collects next found := by
  have both := collects.trans (of_faulted faulted)
  rwa [List.append_nil] at both

theorem refer (s : State) (token : Token) :
    s.Collects (s.refer token).2 (s.refer token).1.mentions :=
  ⟨rfl, [_], rfl, List.Sublist.refl _⟩

end State.Collects

/-! ## Reading literals -/

/-- A reading collects the references of what it has read, in which arrays are not nested deeper
    than they may be. -/
structure Reading.Collects (limit : Nat) (s : State) (r : Reading) : Prop where
  collects : s.Collects r.state (Literal.mentionsOf r.literal.toList)
  shallow : ∀ literal ∈ r.literal, literal.depth ≤ limit

/-- What has been read in open arrays, in the order of the text. -/
def gathered : List OpenArray → List Literal
  | [] => []
  | top :: outer => gathered outer ++ top.elements.reverse

/-- Open arrays are nested no deeper than they may be, each with its elements. -/
def Fits (limit : Nat) : List OpenArray → Prop
  | [] => True
  | top :: outer => outer.length + 1 ≤ limit ∧
      (∀ literal ∈ top.elements, literal.depth + (outer.length + 1) ≤ limit) ∧ Fits limit outer

/-- The references in open arrays have been collected since a state, and the arrays fit. -/
structure Gathers (limit : Nat) (s next : State) (arrays : List OpenArray) : Prop where
  collects : s.Collects next (Literal.mentionsOf (gathered arrays))
  fits : Fits limit arrays

namespace Gathers

variable {limit : Nat} {top : OpenArray} {outer arrays : List OpenArray} {literal : Literal}

theorem faulted (gathers : Gathers limit s middle arrays) (faulted : middle.Faulted next) :
    Gathers limit s next arrays :=
  ⟨gathers.collects.faulted faulted, gathers.fits⟩

/-- One more element of the innermost array. -/
theorem add (gathers : Gathers limit s middle (top :: outer))
    (collects : middle.Collects next literal.mentions)
    (fits : literal.depth + (outer.length + 1) ≤ limit) :
    Gathers limit s next ({ top with elements := literal :: top.elements } :: outer) := by
  obtain ⟨inside, elements, others⟩ := gathers.fits
  refine ⟨?_, inside, ?_, others⟩
  · have both := gathers.collects.trans collects
    have one : Literal.mentionsOf [literal] = literal.mentions := List.append_nil _
    rwa [← one, ← Literal.mentionsOf_append, gathered, List.append_assoc, ← List.reverse_cons]
      at both
  · exact List.forall_mem_cons.2 ⟨fits, elements⟩

/-- One more array, inside the others. -/
theorem opened (gathers : Gathers limit s next arrays) (start : Token)
    (inside : arrays.length + 1 ≤ limit) : Gathers limit s next (⟨start, []⟩ :: arrays) := by
  refine ⟨?_, inside, nofun, gathers.fits⟩
  rw [gathered, List.reverse_nil, List.append_nil]
  exact gathers.collects

/-- The array that a closing bracket makes of what has been read, and zeros. -/
theorem exists_closeArray (s : State) (array : OpenArray) (bracket : Token) (rest : List Token) :
    ∃ (zeros : Nat) (mark span : Span), (closeArray s array bracket rest).1 =
      .array (array.elements.reverse ++ List.replicate zeros (.number 0 mark)) span :=
  ⟨_, _, _, congrArg Prod.fst (closeArray_eq s array bracket rest)⟩

section
variable (bracket : Token) (rest : List Token)

theorem mentions_closeArray : (closeArray s top bracket rest).1.mentions =
    Literal.mentionsOf top.elements.reverse := by
  obtain ⟨zeros, mark, span, same⟩ := exists_closeArray s top bracket rest
  have none : Literal.mentionsOf (List.replicate zeros (.number 0 mark)) = [] := by
    rw [List.eq_nil_iff_forall_not_mem]
    intro r member
    obtain ⟨literal, inside, mentioned⟩ := Literal.mem_mentionsOf.1 member
    rw [(List.mem_replicate.1 inside).2] at mentioned
    exact absurd mentioned List.not_mem_nil
  rw [same, Literal.mentions, Literal.mentionsOf_append, none, List.append_nil]

theorem depth_closeArray (fits : Fits limit (top :: outer)) :
    (closeArray s top bracket rest).1.depth + outer.length ≤ limit := by
  obtain ⟨zeros, mark, span, same⟩ := exists_closeArray s top bracket rest
  obtain ⟨inside, elements, -⟩ := fits
  have deepest : Literal.depthOf (top.elements.reverse ++
      List.replicate zeros (.number 0 mark)) ≤ limit - (outer.length + 1) := by
    refine Literal.depthOf_le_iff.2 fun literal member => ?_
    rcases List.mem_append.1 member with old | filling
    · have le := elements literal (List.mem_reverse.1 old)
      omega
    · rw [(List.mem_replicate.1 filling).2]
      exact Nat.zero_le _
  rw [same, Literal.depth]
  omega

/-- The innermost array becomes an element of the one around it. -/
theorem closed {around : OpenArray} (gathers : Gathers limit s middle (top :: around :: outer)) :
    Gathers limit s (closeArray middle top bracket rest).2.1
      ({ around with elements := (closeArray middle top bracket rest).1 :: around.elements } ::
        outer) := by
  have depth := depth_closeArray (s := middle) bracket rest gathers.fits
  obtain ⟨-, -, inside, elements, others⟩ := gathers.fits
  refine ⟨?_, inside, List.forall_mem_cons.2 ⟨depth, elements⟩, others⟩
  -- An array stands behind what was read around it before, so the order of the text stays.
  have collects := gathers.collects.faulted (.closeArray middle top bracket rest)
  have same : Literal.mentionsOf [(closeArray middle top bracket rest).1] =
      Literal.mentionsOf top.elements.reverse :=
    (List.append_nil _).trans (mentions_closeArray bracket rest)
  rwa [gathered, gathered, Literal.mentionsOf_append, ← same, ← Literal.mentionsOf_append,
    List.append_assoc, ← List.reverse_cons] at collects

/-- The outermost array is what has been read. -/
theorem closed_last (gathers : Gathers limit s middle [top]) :
    s.Collects (closeArray middle top bracket rest).2.1
        (closeArray middle top bracket rest).1.mentions ∧
      (closeArray middle top bracket rest).1.depth ≤ limit := by
  have collects := gathers.collects.faulted (.closeArray middle top bracket rest)
  rw [gathered, gathered, List.nil_append, ← mentions_closeArray bracket rest] at collects
  exact ⟨collects, depth_closeArray bracket rest gathers.fits⟩

end

end Gathers

theorem Reading.Collects.none {limit : Nat} {cursor : Cursor} (collects : s.Collects next []) :
    Reading.Collects limit s ⟨.none, next, cursor⟩ :=
  ⟨collects, fun _ none => absurd none (Option.not_mem_none _)⟩

theorem Reading.Collects.some {limit : Nat} {literal : Literal} {cursor : Cursor}
    (collects : s.Collects next literal.mentions) (shallow : literal.depth ≤ limit) :
    Reading.Collects limit s ⟨.some literal, next, cursor⟩ := by
  refine ⟨?_, fun other same => ?_⟩
  · rwa [Option.toList_some, Literal.mentionsOf, Literal.mentionsOf, List.append_nil]
  · cases same
    exact shallow

/-- A string with its length mark is a string. -/
theorem exists_readText (s : State) (token : Token) (rest : List Token) :
    ∃ value span, (readText s token rest).1 = .text value span :=
  ⟨_, _, congrArg Prod.fst (readText_eq s token rest)⟩

theorem collects_readText (s : State) (token : Token) (rest : List Token) :
    s.Collects (readText s token rest).2.1 (readText s token rest).1.mentions ∧
      (readText s token rest).1.depth = 0 := by
  obtain ⟨value, span, same⟩ := exists_readText s token rest
  rw [same]
  exact ⟨.of_faulted (.readText s token rest), rfl⟩

theorem collects_readArray (limit : Int) (before s : State) (top : OpenArray)
    (outer : List OpenArray) (last : Token) (tokens : List Token)
    (gathers : Gathers limit.toNat before s (top :: outer)) :
    (readArray limit s top outer last tokens).Collects limit.toNat before := by
  -- `Gathers` is what every token keeps. It speaks of all open arrays, since one that is closed
  -- goes on in the one around it.
  fun_induction readArray limit s top outer last tokens with
  | case1 s top outer last =>
    have nothing := gathers.collects.forget (List.nil_sublist _)
    exact .none (nothing.faulted (.unclosed last (top :: outer) s))
  | case2 s top outer last token rest kind literal ih =>
    have asked := State.Collects.of_faulted (.askNumber s token)
    exact ih (gathers.add asked (Nat.zero_add _ ▸ gathers.fits.1))
  | case3 s top outer last token rest kind literal next referred ih =>
    have refers := State.Collects.refer s token
    rw [referred] at refers
    have flat : literal.depth = 0 := by
      have same : literal = (s.refer token).1 := (congrArg Prod.fst referred).symm
      rw [same]
      rfl
    exact ih (gathers.add refers (by rw [flat, Nat.zero_add]; exact gathers.fits.1))
  | case4 s top outer last token rest kind r ih =>
    obtain ⟨collects, flat⟩ := collects_readText s token rest
    exact ih (gathers.add collects (by rw [flat, Nat.zero_add]; exact gathers.fits.1))
  | case5 s top outer last token rest kind asked deep c ih =>
    exact ih (gathers.faulted ((State.Faulted.ask s (.nesting _)).trans (.fault asked _ _)))
  | case6 s top outer last token rest kind asked shallow ih =>
    refine ih ((gathers.faulted (.ask s (.nesting _))).opened token ?_)
    simp only [List.length_cons]
    omega
  | case7 s top last token rest kind r =>
    obtain ⟨collects, shallow⟩ := gathers.closed_last token rest
    exact .some collects shallow
  | case8 s top last token rest kind r around further ih => exact ih (gathers.closed token rest)
  | case9 s top outer last token rest _ _ _ _ _ ih => exact ih (gathers.faulted (.fault s _ _))

theorem collects_readLiteralFrom (limit : Int) (s : State) (token : Token) (rest : List Token) :
    (readLiteralFrom limit s token rest).Collects limit.toNat s := by
  unfold readLiteralFrom
  split
  · exact .some (.of_faulted (.askNumber s token)) (Nat.zero_le _)
  · exact .some (.refer s token) (Nat.zero_le _)
  · obtain ⟨collects, flat⟩ := collects_readText s token rest
    exact .some collects (flat ▸ Nat.zero_le _)
  · dsimp only
    split
    · exact .none (.of_faulted ((State.Faulted.ask s (.nesting _)).trans (.fault _ _ _)))
    · have idle : Gathers limit.toNat s (s.ask (.nesting 1)) [] :=
        ⟨.of_faulted (.ask s (.nesting 1)), trivial⟩
      refine collects_readArray limit s _ _ [] token rest (idle.opened token ?_)
      rw [List.length_nil]
      omega

theorem collects_readLiteral (limit : Int) (s : State) (c : Cursor) :
    (readLiteral limit s c).Collects limit.toNat s := by
  unfold readLiteral
  split
  · split
    · exact collects_readLiteralFrom limit s _ _
    · exact .none (.refl s)
  · exact .none (.refl s)

theorem collects_readSource (limit : Int) (s : State) (c : Cursor) :
    (readSource limit s c).2.Collects limit.toNat s := by
  unfold readSource
  split
  · exact .none (.refl s)
  · dsimp only
    split <;> exact collects_readLiteral limit s _

end Parser

end NineBit.Asm

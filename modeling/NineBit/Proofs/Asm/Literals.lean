import NineBit.Proofs.Asm.Grammar
import NineBit.Proofs.Asm.Readers

/-!
# Reading literals

A reader of a literal adds problems, and leaves blocks and labels alone (`State.Reads`). When it
finds no problem it has read a literal of the grammar, and it reads every literal of the grammar
without a problem, up to a token that can go on with none (`NoMark`). The reader of arrays keeps the
arrays it is in as a list; what is left of them when it starts is `Closes`.
-/

namespace NineBit.Asm

open Grammar

namespace Parser

/-- What the state leaves open. -/
def State.standing (s : State) : Standing where
  block := s.block
  outer := s.outer
  waiting := s.waiting.map Prod.fst
  labels := s.labels.map Prod.fst

/-- Nothing but problems and references has been added. -/
structure State.Reads (s next : State) : Prop where
  grows : s.Grows next
  standing : next.standing = s.standing

theorem State.Faulted.reads {s next : State} (faulted : s.Faulted next) : s.Reads next := by
  refine ⟨faulted.grows, ?_⟩
  obtain ⟨-, -, _, _, rfl⟩ := faulted
  rfl

namespace State.Reads

variable {s middle next : State}

theorem refl (s : State) : s.Reads s := ⟨.refl s, rfl⟩

theorem trans (first : s.Reads middle) (second : middle.Reads next) : s.Reads next :=
  ⟨first.grows.trans second.grows, second.standing.trans first.standing⟩

theorem refer (s : State) (token : Token) : s.Reads (s.refer token).2 := ⟨.of_eq rfl, rfl⟩

theorem passage : Passage fun s _ next _ => s.Reads next where
  pass faulted _ := faulted.reads
  refer s token _ _ := refer s token
  trans := trans

theorem readArray (limit : Int) (s : State) (top : OpenArray) (outer : List OpenArray)
    (last : Token) (tokens : List Token) :
    s.Reads (readArray limit s top outer last tokens).state :=
  passage.readArray limit s top outer last tokens

theorem readLiteralFrom (limit : Int) (s : State) (token : Token) (rest : List Token) :
    s.Reads (readLiteralFrom limit s token rest).state :=
  passage.readLiteralFrom limit s token rest

theorem readLiteral (limit : Int) (s : State) (c : Cursor) :
    s.Reads (readLiteral limit s c).state :=
  passage.readLiteral limit s c

theorem readSource (limit : Int) (s : State) (c : Cursor) :
    s.Reads (readSource limit s c).2.state :=
  passage.readSource limit s c

end State.Reads

/-! ## Length marks -/

/-- The next token marks no length. -/
def NoMark (tokens : List Token) : Prop :=
  ∀ token, tokens.head? = some token → token.kind ≠ .arrayLength

section
variable {s : State} {c : Cursor} {least : Nat}

/-- A length mark that was read without a problem, and is long enough. -/
theorem readLength_sound (clean : (readLength s c).state.faults = s.faults)
    (enough : ∀ wanted number, (readLength s c).wanted = some (wanted, number) → least ≤ wanted) :
    ∃ length, c.rest = length ++ (readLength s c).cursor.rest ∧ LengthMark least length := by
  unfold readLength at clean enough ⊢
  split
  · exact ⟨[], rfl, .none⟩
  · rename_i mark rest same
    rw [same] at clean enough
    dsimp only at clean enough
    split
    · exact ⟨[], rfl, .none⟩
    · rename_i marks
      rw [if_neg marks] at clean enough
      split
      · exact absurd clean (expected_ne _ _ _)
      · rename_i number more
        dsimp only at clean enough
        split
        · rename_i numeral
          rw [if_pos numeral] at enough
          refine ⟨[mark, number], by rw [same]; rfl, ?_⟩
          exact .some (not_not.1 marks) numeral (enough _ _ rfl)
        · rename_i numeral
          rw [if_neg numeral] at clean
          exact absurd clean (expected_ne _ _ _)

/-- Every length mark is read without a problem. -/
theorem readLength_complete {length tail : List Token} (mark : LengthMark least length)
    (ends : NoMark tail) (last : Token) :
    ∃ (wanted : Option (Nat × Token)) (next : State), (∀ entry ∈ wanted, least ≤ entry.1) ∧
      next.faults = s.faults ∧
        ∃ last', readLength s ⟨last, length ++ tail⟩ = ⟨wanted, next, ⟨last', tail⟩⟩ := by
  cases mark with
  | none =>
    refine ⟨none, s, fun _ h => absurd h (Option.not_mem_none _), rfl, last, ?_⟩
    unfold readLength
    cases tail with
    | nil => rfl
    | cons token rest =>
      have other : token.kind ≠ .arrayLength := ends token rfl
      simp only [List.nil_append, if_pos other]
  | @some mark number marks numeral enough =>
    refine ⟨some (numberValue number.text, number), s.askNumber number, ?_, rfl, number, ?_⟩
    · rintro _ ⟨⟩
      exact enough
    · simp [readLength, marks, numeral]

/-- A length mark that is long enough, read without a problem. -/
theorem readSize_sound {short : ParseFault} {demand : Nat → Demand}
    (clean : (readSize s c least short demand).state.faults = s.faults) :
    ∃ length, c.rest = length ++ (readSize s c least short demand).cursor.rest ∧
      LengthMark least length := by
  unfold readSize at clean ⊢
  dsimp only at clean ⊢
  have grows := (State.Faulted.readLength s c).grows
  split at clean
  · rename_i none
    exact readLength_sound clean fun wanted number some => absurd (none.symm.trans some) nofun
  · rename_i wanted mark found
    split at clean
    · rename_i enough
      rw [if_pos enough]
      refine readLength_sound clean fun other number some => ?_
      cases found.symm.trans some
      exact enough
    · exact absurd (grows.clean (.fault _ _ _) clean).2 (fault_ne _ _ _)

theorem readSize_complete {length tail : List Token} (mark : LengthMark least length)
    (ends : NoMark tail) (last : Token) (short : ParseFault) (demand : Nat → Demand) :
    (readSize s ⟨last, length ++ tail⟩ least short demand).state.faults = s.faults ∧
      (readSize s ⟨last, length ++ tail⟩ least short demand).cursor.rest = tail := by
  obtain ⟨wanted, next, enough, clean, last, read⟩ :=
    readLength_complete (s := s) mark ends last
  unfold readSize
  rw [read]
  cases wanted with
  | none => exact ⟨clean, rfl⟩
  | some entry =>
    dsimp only
    rw [if_pos (enough entry rfl)]
    exact ⟨clean, rfl⟩

/-- A string that was read without a problem, with its length mark. -/
theorem readText_sound {token : Token} {rest : List Token}
    (clean : (readText s token rest).2.1.faults = s.faults) :
    ∃ length, rest = length ++ (readText s token rest).2.2.rest ∧
      LengthMark token.text.length length := by
  rw [readText_eq] at clean ⊢
  exact readSize_sound clean

theorem readText_complete {token : Token} {length tail : List Token}
    (mark : LengthMark token.text.length length) (ends : NoMark tail) :
    (readText s token (length ++ tail)).2.1.faults = s.faults ∧
      (readText s token (length ++ tail)).2.2.rest = tail := by
  rw [readText_eq]
  exact readSize_complete mark ends token _ _

/-- The end of an array that was read without a problem, with its length mark. -/
theorem closeArray_sound {array : OpenArray} {bracket : Token} {rest : List Token}
    (clean : (closeArray s array bracket rest).2.1.faults = s.faults) :
    ∃ length, rest = length ++ (closeArray s array bracket rest).2.2.rest ∧
      LengthMark array.elements.length length := by
  rw [closeArray_eq] at clean ⊢
  exact readSize_sound clean

theorem closeArray_complete (array : OpenArray) {length tail : List Token}
    (mark : LengthMark array.elements.length length) (ends : NoMark tail) (bracket : Token) :
    (closeArray s array bracket (length ++ tail)).2.1.faults = s.faults ∧
      (closeArray s array bracket (length ++ tail)).2.2.rest = tail := by
  rw [closeArray_eq]
  exact readSize_complete mark ends bracket _ _

end

/-! ## Arrays -/

/-- What is left of the innermost of some open arrays and of those around it, in which so many
    elements have been read, innermost first. The elements of the innermost one have so much
    room. -/
inductive Closes : Nat → List Nat → List Token → Prop where
  | last {room count : Nat} {elements : List (List Token)} {closing : Token} {length : List Token}
      (literals : ∀ element ∈ elements, IsLiteral room element)
      (closes : closing.kind = .arrayEnd) (mark : LengthMark (count + elements.length) length) :
      Closes room [count] (elements.flatten ++ closing :: length)
  | more {room count around : Nat} {counts : List Nat} {elements : List (List Token)}
      {closing : Token} {length rest : List Token}
      (literals : ∀ element ∈ elements, IsLiteral room element)
      (closes : closing.kind = .arrayEnd) (mark : LengthMark (count + elements.length) length)
      (further : Closes (room + 1) ((around + 1) :: counts) rest) :
      Closes room (count :: around :: counts) (elements.flatten ++ closing :: (length ++ rest))

namespace Closes

variable {room count : Nat} {counts : List Nat} {first rest : List Token}

/-- One more element of the innermost array. -/
theorem cons (literal : IsLiteral room first) (closes : Closes room ((count + 1) :: counts) rest) :
    Closes room (count :: counts) (first ++ rest) := by
  have all {elements : List (List Token)}
      (literals : ∀ element ∈ elements, IsLiteral room element) :
      ∀ element ∈ first :: elements, IsLiteral room element := by
    simp only [List.mem_cons, forall_eq_or_imp]
    exact ⟨literal, literals⟩
  cases closes with
  | last literals closes mark =>
    rw [Nat.add_assoc, Nat.add_comm 1] at mark
    rw [← List.append_assoc, ← List.flatten_cons]
    exact .last (all literals) closes mark
  | more literals closes mark further =>
    rw [Nat.add_assoc, Nat.add_comm 1] at mark
    rw [← List.append_assoc, ← List.flatten_cons]
    exact .more (all literals) closes mark further

/-- An array that is opened in another one is an element of that one. -/
theorem opening {token : Token} (opens : token.kind = .arrayStart)
    (closes : Closes room (0 :: count :: counts) rest) :
    Closes (room + 1) (count :: counts) (token :: rest) := by
  cases closes with
  | @more _ _ _ _ elements closing length rest literals closes mark further =>
    rw [Nat.zero_add] at mark
    have array := IsLiteral.array opens literals closes mark
    have whole := cons array further
    simp only [List.cons_append, List.append_assoc] at whole
    exact whole

section
variable {token : Token} {length : List Token} (closes : token.kind = .arrayEnd)
  (mark : LengthMark count length)

include closes mark

/-- The last open array is closed. -/
theorem closing_last : Closes room [count] (token :: length) := by
  have none : ∀ element ∈ ([] : List (List Token)), IsLiteral room element :=
    fun _ member => absurd member List.not_mem_nil
  have closed := Closes.last none closes mark
  exact closed

/-- The innermost array is closed. -/
theorem closing_more {around : Nat} (further : Closes (room + 1) ((around + 1) :: counts) rest) :
    Closes room (count :: around :: counts) (token :: (length ++ rest)) := by
  have none : ∀ element ∈ ([] : List (List Token)), IsLiteral room element :=
    fun _ member => absurd member List.not_mem_nil
  have closed := Closes.more none closes mark further
  exact closed

end

end Closes

/-- An array that was read without a problem. -/
theorem readArray_sound (limit : Int) (s : State) (top : OpenArray) (outer : List OpenArray)
    (last : Token) (tokens : List Token) :
    ∀ {room : Nat}, (room : Int) + outer.length + 1 = limit →
      (readArray limit s top outer last tokens).state.faults = s.faults →
      (readArray limit s top outer last tokens).literal.isSome = true ∧
        ∃ read, Closes room ((top :: outer).map fun array => array.elements.length) read ∧
          tokens = read ++ (readArray limit s top outer last tokens).cursor.rest := by
  fun_induction readArray limit s top outer last tokens with
  | case1 s top outer last =>
    intro room level clean
    exact absurd clean ((State.Faulted.unclosed last outer _).grows.not_clean)
  | case2 s top outer last token rest kind literal =>
    rename_i ih
    intro room level clean
    obtain ⟨some, read, closes, same⟩ := ih level clean
    refine ⟨some, token :: read, Closes.cons (.number kind) closes, ?_⟩
    rw [List.cons_append, ← same]
  | case3 s top outer last token rest kind literal next referred ih =>
    intro room level clean
    have first := congrArg (fun r => r.2.faults) referred
    obtain ⟨some, read, closes, same⟩ := ih level (clean.trans first)
    refine ⟨some, token :: read, Closes.cons (.reference kind) closes, ?_⟩
    rw [List.cons_append, ← same]
  | case4 s top outer last token rest kind r =>
    rename_i ih
    intro room level clean
    have first := (State.Faulted.readText s token rest).grows
    have later := (State.Reads.readArray limit r.2.1
      { top with elements := r.1 :: top.elements } outer r.2.2.last r.2.2.rest).grows
    obtain ⟨before, after⟩ := first.clean later clean
    obtain ⟨length, text, mark⟩ := readText_sound before
    obtain ⟨some, read, closes, same⟩ := ih level after
    refine ⟨some, token :: length ++ read, Closes.cons (.string kind mark) closes, ?_⟩
    rw [List.cons_append, List.cons_append, List.append_assoc, ← same]
    exact congrArg (token :: ·) text
  | case5 s top outer last token rest kind deep =>
    intro room level clean
    exact absurd clean ((State.Reads.readArray limit _ top outer _ _).grows.not_clean)
  | case6 s top outer last token rest kind asked shallow =>
    rename_i ih
    intro room level clean
    obtain ⟨inner, rfl⟩ : ∃ inner, room = inner + 1 := ⟨room - 1, by omega⟩
    have inside : (inner : Int) + (top :: outer).length + 1 = limit := by
      rw [List.length_cons]
      omega
    obtain ⟨some, read, closes, same⟩ := ih inside clean
    refine ⟨some, token :: read, closes.opening kind, ?_⟩
    rw [List.cons_append, ← same]
  | case7 s top last token rest kind =>
    intro room level clean
    obtain ⟨length, tail, mark⟩ := closeArray_sound clean
    exact ⟨rfl, token :: length, .closing_last kind mark, congrArg (token :: ·) tail⟩
  | case8 s top last token rest kind r around further =>
    rename_i ih
    intro room level clean
    have first := (State.Faulted.closeArray s top token rest).grows
    have later := (State.Reads.readArray limit r.2.1
      { around with elements := r.1 :: around.elements } further r.2.2.last r.2.2.rest).grows
    obtain ⟨before, after⟩ := first.clean later clean
    obtain ⟨length, tail, mark⟩ := closeArray_sound before
    have outside : ((room + 1 : Nat) : Int) + further.length + 1 = limit := by
      rw [List.length_cons] at level
      omega
    obtain ⟨some, read, closes, same⟩ := ih outside after
    refine ⟨some, token :: (length ++ read), .closing_more kind mark closes, ?_⟩
    rw [List.cons_append, List.append_assoc, ← same]
    exact congrArg (token :: ·) tail
  | case9 s top outer last token rest _ _ _ _ _ ih =>
    intro room level clean
    exact absurd clean ((State.Reads.readArray limit _ top outer token rest).grows.not_clean)

theorem isEmpty_literal {room : Nat} {literal : List Token} (is : IsLiteral room literal) :
    literal.isEmpty = false := by cases is <;> rfl

theorem startsLiteral_of_isLiteral {room : Nat} {token : Token} {rest : List Token}
    (is : IsLiteral room (token :: rest)) : startsLiteral token = true := by
  cases is with
  | number kind | reference kind | string kind | array kind => simp [startsLiteral, kind]

theorem noMark_literal {room : Nat} {literal : List Token} (is : IsLiteral room literal)
    (tail : List Token) : NoMark (literal ++ tail) := by
  intro token first
  cases is with
  | number kind | reference kind | string kind | array kind =>
    cases first
    rw [kind]
    decide

theorem noMark_literals {room : Nat} {literals : List (List Token)} {tail : List Token}
    (all : ∀ literal ∈ literals, IsLiteral room literal) (ends : NoMark tail) :
    NoMark (literals.flatten ++ tail) := by
  cases literals with
  | nil => exact ends
  | cons first rest =>
    rw [List.flatten_cons, List.append_assoc]
    exact noMark_literal (all first List.mem_cons_self) _

section
variable {limit : Int} {token : Token}

theorem readArray_number (kind : token.kind = .number) (s : State) (top : OpenArray)
    (outer : List OpenArray) (last : Token) (rest : List Token) :
    readArray limit s top outer last (token :: rest) =
      readArray limit (s.askNumber token)
        { top with elements := .number (numberValue token.text) token.span :: top.elements } outer
        token rest := by
  rw [readArray]
  simp only [kind]

theorem readArray_reference (kind : token.kind = .reference) (s : State) (top : OpenArray)
    (outer : List OpenArray) (last : Token) (rest : List Token) :
    readArray limit s top outer last (token :: rest) =
      readArray limit (s.refer token).2
        { top with elements := (s.refer token).1 :: top.elements } outer token rest := by
  rw [readArray]
  simp only [kind]

theorem readArray_string (kind : token.kind = .string) (s : State) (top : OpenArray)
    (outer : List OpenArray) (last : Token) (rest : List Token) :
    readArray limit s top outer last (token :: rest) =
      readArray limit (readText s token rest).2.1
        { top with elements := (readText s token rest).1 :: top.elements } outer
        (readText s token rest).2.2.last (readText s token rest).2.2.rest := by
  rw [readArray]
  simp only [kind]

theorem readArray_start (kind : token.kind = .arrayStart) (s : State) (top : OpenArray)
    (outer : List OpenArray) (last : Token) (rest : List Token)
    (shallow : ¬limit ≤ outer.length + 1) :
    readArray limit s top outer last (token :: rest) =
      readArray limit (s.ask (.nesting (outer.length + 2))) ⟨token, []⟩ (top :: outer) token
        rest := by
  rw [readArray]
  simp only [kind, if_neg shallow]

theorem readArray_end (kind : token.kind = .arrayEnd) (s : State) (top around : OpenArray)
    (further : List OpenArray) (last : Token) (rest : List Token) :
    readArray limit s top (around :: further) last (token :: rest) =
      readArray limit (closeArray s top token rest).2.1
        { around with elements := (closeArray s top token rest).1 :: around.elements } further
        (closeArray s top token rest).2.2.last (closeArray s top token rest).2.2.rest := by
  rw [readArray]
  simp only [kind]

theorem readArray_end_last (kind : token.kind = .arrayEnd) (s : State) (top : OpenArray)
    (last : Token) (rest : List Token) :
    readArray limit s top [] last (token :: rest) =
      ⟨some (closeArray s top token rest).1, (closeArray s top token rest).2.1,
        (closeArray s top token rest).2.2⟩ := by
  rw [readArray]
  simp only [kind]

end

/-- The tokens are read as so many elements of an array without a problem. -/
def ReadsElements (room count : Nat) (tokens tail : List Token) : Prop :=
  ∀ (limit : Int) (s : State) (top : OpenArray) (outer : List OpenArray) (last : Token),
    (room : Int) + outer.length + 1 = limit → ∃ s' elements last', s'.faults = s.faults ∧
      elements.length = top.elements.length + count ∧
      readArray limit s top outer last (tokens ++ tail) =
        readArray limit s' { top with elements := elements } outer last' tail

/-- Literals one after the other are read as so many elements. -/
theorem readsElements_flatten {room : Nat} {literals : List (List Token)} {tail : List Token}
    (all : ∀ literal ∈ literals, IsLiteral room literal)
    (each : ∀ literal ∈ literals, ∀ {tail : List Token}, NoMark tail →
      ReadsElements room 1 literal tail)
    (ends : NoMark tail) : ReadsElements room literals.length literals.flatten tail := by
  induction literals with
  | nil => exact fun limit s top outer last level => ⟨s, top.elements, last, rfl, rfl, rfl⟩
  | cons literal literals ih =>
    simp only [List.mem_cons, forall_eq_or_imp] at all each
    intro limit s top outer last level
    obtain ⟨middle, elements, last', clean, one, first⟩ :=
      each.1 (noMark_literals all.2 ends) limit s top outer last level
    obtain ⟨s', elements', last'', clean', count, rest⟩ :=
      ih all.2 each.2 limit middle { top with elements := elements } outer last' level
    refine ⟨s', elements', last'', clean'.trans clean, ?_, ?_⟩
    · rw [count, one, List.length_cons]
      omega
    · rw [List.flatten_cons, List.append_assoc, first, rest]

/-- A literal is read as an element of an array without a problem. -/
theorem readsElements_literal {room : Nat} {literal : List Token} (is : IsLiteral room literal) :
    ∀ {tail : List Token}, NoMark tail → ReadsElements room 1 literal tail := by
  induction is with
  | @number room token kind =>
    intro tail ends limit s top outer last level
    exact ⟨s.askNumber token, _, _, rfl, rfl, readArray_number kind ..⟩
  | @reference room token kind =>
    intro tail ends limit s top outer last level
    exact ⟨(s.refer token).2, _, _, rfl, rfl, readArray_reference kind ..⟩
  | @string room token length kind mark =>
    intro tail ends limit s top outer last level
    obtain ⟨clean, rest⟩ := readText_complete (s := s) mark ends
    refine ⟨(readText s token (length ++ tail)).2.1,
      (readText s token (length ++ tail)).1 :: top.elements,
      (readText s token (length ++ tail)).2.2.last, clean, rfl, ?_⟩
    rw [List.cons_append, readArray_string kind, rest]
  | @array room opening closing literals length opens all closes mark ih =>
    intro tail ends limit s top outer last level
    have shallow : ¬limit ≤ outer.length + 1 := by omega
    have inside : (room : Int) + (top :: outer).length + 1 = limit := by
      rw [List.length_cons]
      omega
    have behind : NoMark (closing :: (length ++ tail)) := by
      rintro _ ⟨⟩
      rw [closes]
      decide
    obtain ⟨s', elements, last', clean, count, inner⟩ :=
      readsElements_flatten all ih behind limit (s.ask (.nesting (outer.length + 2)))
        ⟨opening, []⟩ (top :: outer) opening inside
    have full : elements.length = literals.length := by rw [count, List.length_nil, Nat.zero_add]
    obtain ⟨same, rest⟩ :=
      closeArray_complete (s := s') ⟨opening, elements⟩ (full ▸ mark) ends closing
    refine ⟨(closeArray s' ⟨opening, elements⟩ closing (length ++ tail)).2.1,
      (closeArray s' ⟨opening, elements⟩ closing (length ++ tail)).1 :: top.elements,
      (closeArray s' ⟨opening, elements⟩ closing (length ++ tail)).2.2.last, same.trans clean,
      rfl, ?_⟩
    rw [List.cons_append, List.append_assoc, List.cons_append,
      readArray_start opens _ _ _ _ _ shallow, inner, readArray_end closes, rest]

/-! ## Literals -/

section
variable {limit : Int} {s : State} {token : Token} {rest tail : List Token}

/-- A literal that was read without a problem. -/
theorem readLiteralFrom_sound (starts : startsLiteral token = true)
    (clean : (readLiteralFrom limit s token rest).state.faults = s.faults) :
    (readLiteralFrom limit s token rest).literal.isSome = true ∧
      ∃ read, token :: rest = read ++ (readLiteralFrom limit s token rest).cursor.rest ∧
        IsLiteral limit.toNat read := by
  unfold readLiteralFrom at clean ⊢
  split
  · rename_i kind
    exact ⟨rfl, [token], rfl, .number kind⟩
  · rename_i kind
    exact ⟨rfl, [token], rfl, .reference kind⟩
  · rename_i kind
    simp only [kind] at clean
    obtain ⟨length, text, mark⟩ := readText_sound clean
    exact ⟨rfl, token :: length, congrArg (token :: ·) text, .string kind mark⟩
  · rename_i number reference string
    have kind : token.kind = .arrayStart := by
      simp only [startsLiteral, Bool.or_eq_true, decide_eq_true_eq] at starts
      rcases starts with ((is | is) | is) | is
      · exact absurd is number
      · exact absurd is reference
      · exact absurd is string
      · exact is
    simp only [kind] at clean
    dsimp only
    split
    · rename_i low
      rw [if_pos low] at clean
      exact absurd clean (fault_ne _ _ _)
    · rename_i high
      rw [if_neg high] at clean
      obtain ⟨room, depth⟩ : ∃ room, limit.toNat = room + 1 := ⟨limit.toNat - 1, by omega⟩
      have level : (room : Int) + ([] : List OpenArray).length + 1 = limit := by
        rw [List.length_nil]
        omega
      obtain ⟨some, read, closes, same⟩ :=
        readArray_sound limit (s.ask (.nesting 1)) ⟨token, []⟩ [] token rest level clean
      refine ⟨some, token :: read, congrArg (token :: ·) same, ?_⟩
      rw [depth]
      cases closes with
      | @last _ _ elements _ length literals closes mark =>
        have long : LengthMark (0 + elements.length) length := mark
        rw [Nat.zero_add] at long
        exact .array kind literals closes long

/-- Every literal is read without a problem. -/
theorem readLiteralFrom_complete (is : IsLiteral limit.toNat (token :: rest)) (ends : NoMark tail)
    (s : State) : startsLiteral token = true ∧
      (readLiteralFrom limit s token (rest ++ tail)).literal.isSome = true ∧
        (readLiteralFrom limit s token (rest ++ tail)).state.faults = s.faults ∧
          (readLiteralFrom limit s token (rest ++ tail)).cursor.rest = tail := by
  generalize depth : limit.toNat = room at is
  cases is with
  | number kind => simp [readLiteralFrom, kind, startsLiteral, State.askNumber, State.ask]
  | reference kind => simp [readLiteralFrom, kind, startsLiteral, State.refer]
  | string kind mark =>
    obtain ⟨clean, rest⟩ := readText_complete (s := s) mark ends
    simp [readLiteralFrom, kind, startsLiteral, clean, rest]
  | @array room _ closing elements length kind all closes mark =>
    have high : ¬limit ≤ 0 := by omega
    have level : (room : Int) + ([] : List OpenArray).length + 1 = limit := by
      rw [List.length_nil]
      omega
    have behind : NoMark (closing :: (length ++ tail)) := by
      rintro _ ⟨⟩
      rw [closes]
      decide
    obtain ⟨s', read, last, clean, count, inner⟩ :=
      readsElements_flatten all (fun literal member => readsElements_literal (all literal member))
        behind limit (s.ask (.nesting 1)) ⟨token, []⟩ [] token level
    have full : read.length = elements.length := by rw [count, List.length_nil, Nat.zero_add]
    obtain ⟨same, rest⟩ := closeArray_complete (s := s') ⟨token, read⟩ (full ▸ mark) ends closing
    have reads : readLiteralFrom limit s token (elements.flatten ++ closing :: length ++ tail) =
        readArray limit (s.ask (.nesting 1)) ⟨token, []⟩ [] token
          (elements.flatten ++ closing :: (length ++ tail)) := by
      rw [readLiteralFrom]
      simp only [kind, if_neg high, List.append_assoc, List.cons_append]
    rw [reads, inner, readArray_end_last closes]
    exact ⟨by simp [startsLiteral, kind], rfl, same.trans clean, rest⟩

/-- The next token neither starts a literal nor goes on with one. -/
def Ends (tokens : List Token) : Prop :=
  ∀ token, tokens.head? = some token → startsLiteral token = false ∧ token.kind ≠ .arrayLength

theorem Ends.noMark (ends : Ends tail) : NoMark tail := fun token first => (ends token first).2

/-- An optional literal that was read without a problem. -/
theorem readLiteral_sound {c : Cursor}
    (clean : (readLiteral limit s c).state.faults = s.faults) :
    ∃ read, c.rest = read ++ (readLiteral limit s c).cursor.rest ∧
      MayBeLiteral limit.toNat read ∧
        (readLiteral limit s c).literal.isSome = !read.isEmpty := by
  unfold readLiteral at clean ⊢
  split
  · rename_i token rest same
    rw [same] at clean
    split
    · rename_i starts
      simp only [starts, if_true] at clean
      obtain ⟨some, read, tokens, is⟩ := readLiteralFrom_sound starts clean
      refine ⟨read, same.trans tokens, .inr is, ?_⟩
      rw [some, isEmpty_literal is]
      rfl
    · exact ⟨[], rfl, .inl rfl, rfl⟩
  · exact ⟨[], rfl, .inl rfl, rfl⟩

/-- Every optional literal is read without a problem. -/
theorem readLiteral_complete {read : List Token} (is : MayBeLiteral limit.toNat read)
    (ends : Ends tail) (s : State) (last : Token) :
    (readLiteral limit s ⟨last, read ++ tail⟩).state.faults = s.faults ∧
      (readLiteral limit s ⟨last, read ++ tail⟩).cursor.rest = tail ∧
        (readLiteral limit s ⟨last, read ++ tail⟩).literal.isSome = !read.isEmpty := by
  rcases is with rfl | is
  · cases tail with
    | nil => exact ⟨rfl, rfl, rfl⟩
    | cons token rest =>
      simp [readLiteral, (ends token rfl).1]
  · cases read with
    | nil => exact absurd (isEmpty_literal is) (by decide)
    | cons token rest =>
      obtain ⟨starts, some, clean, left⟩ := readLiteralFrom_complete is ends.noMark s
      simp only [readLiteral, List.cons_append, starts, if_true]
      exact ⟨clean, left, some⟩

end

end Parser

end NineBit.Asm

import Mathlib.Logic.Equiv.Basic
import NineBit.Proofs.Asm.Assembling
import NineBit.Proofs.Asm.Names

/-!
# Other names for labels

The names of labels carry no meaning. If each name is exchanged for another one, different names for
different ones, then every reader does the same, problem by problem and place by place
(`Parser.readStatements_relabel`), so that the program is the same with the other names
(`parseStatements_relabel`). Its references mean the same statements, so that it mirrors the
original one and is laid out alike (`assembles_relabel_iff`).
-/

namespace NineBit.Asm

/-! ## Exchanging names -/

section
variable (f : String → String)

/-- The reference to another name. -/
def Reference.relabel (r : Reference) : Reference := { r with name := f r.name }

/-- The label with another name. -/
def Label.relabel (l : Label) : Label := ⟨l.block, f l.name⟩

/-- The entry of a table with another name for its label. -/
def LabelTable.relabelEntry (entry : Label × Nat) : Label × Nat := (entry.1.relabel f, entry.2)

/-- The statement with other names. -/
def Statement.relabel (s : Statement) : Statement :=
  { s with
    label := s.label.map (Label.relabel f)
    body := s.body.mapReferences (Reference.relabel f) }

/-- The program with other names. -/
def Program.relabel (p : Program) : Program where
  statements := p.statements.map (Statement.relabel f)
  labels := p.labels.map (LabelTable.relabelEntry f)
  references := p.references.map (Reference.relabel f)

/-- The token with another name, if it is that of a label or of a reference. -/
def Token.relabel (token : Token) : Token :=
  match token.kind with
  | .label => { token with text := f (String.ofList token.text.toList.dropLast) ++ ":" }
  | .reference => { token with text := ":" ++ f (String.ofList (token.text.toList.drop 1)) }
  | _ => token

@[simp] theorem Token.kind_relabel (token : Token) : (token.relabel f).kind = token.kind := by
  unfold relabel
  split <;> rfl

@[simp] theorem Token.span_relabel (token : Token) : (token.relabel f).span = token.span := by
  unfold relabel
  split <;> rfl

theorem Token.relabel_of_ne {token : Token} (label : token.kind ≠ .label)
    (reference : token.kind ≠ .reference) : token.relabel f = token := by
  unfold relabel
  split
  · exact absurd ‹_› label
  · exact absurd ‹_› reference
  · rfl

/-- Only labels and references have a name. -/
theorem Token.relabel_of_kind {token : Token} {kind : Token.Kind} (is : token.kind = kind)
    (label : kind ≠ .label) (reference : kind ≠ .reference) : token.relabel f = token :=
  relabel_of_ne f (is ▸ label) (is ▸ reference)

end

section
variable {f : String → String}

theorem Label.relabel_injective (injective : Function.Injective f) :
    Function.Injective (Label.relabel f) := by
  rintro ⟨block, name⟩ ⟨block', name'⟩ same
  obtain ⟨rfl, names⟩ := Label.mk.inj same
  exact congrArg (Label.mk block) (injective names)

theorem LabelTable.find?_relabel (injective : Function.Injective f) (l : Label) :
    ∀ table : LabelTable, LabelTable.find? (table.map (relabelEntry f)) (l.relabel f) =
      table.find? l
  | [] => rfl
  | entry :: rest => by
    have later := find?_relabel injective l rest
    have heads : (l.relabel f == entry.1.relabel f) = (l == entry.1) := by
      rw [Bool.eq_iff_iff, beq_iff_eq, beq_iff_eq, (Label.relabel_injective injective).eq_iff]
    unfold find? at later ⊢
    rw [List.map_cons, List.lookup_cons, List.lookup_cons]
    unfold relabelEntry at later ⊢
    dsimp only
    rw [heads, later]

end

namespace Parser

section
variable (f : String → String)

/-- The cursor with other names. -/
def Cursor.relabel (c : Cursor) : Cursor := ⟨c.last.relabel f, c.rest.map (Token.relabel f)⟩

/-- The array with other names in its references. -/
def OpenArray.relabel (array : OpenArray) : OpenArray :=
  ⟨array.start.relabel f, array.elements.map (Literal.mapReferences (Reference.relabel f))⟩

/-- What the parser keeps, with other names and other problems. -/
def State.relabel (s : State) (faults : List Diagnostic) : State where
  statements := s.statements.map (Statement.relabel f)
  labels := s.labels.map (LabelTable.relabelEntry f)
  references := s.references.map (Reference.relabel f)
  block := s.block
  outer := s.outer
  waiting := s.waiting.map fun entry => (entry.1.relabel f, entry.2.relabel f)
  faults := faults
  demands := s.demands

/-- The parser keeps the same, but for the names, and has met problems at the same places. -/
def State.Relabels (s t : State) : Prop :=
  ∃ faults, faults.map Diagnostic.span = s.faults.map Diagnostic.span ∧ t = s.relabel f faults

/-- What has been read, with other names. -/
structure Reading.Relabels (r other : Reading) : Prop where
  literal : other.literal = r.literal.map (Literal.mapReferences (Reference.relabel f))
  state : r.state.Relabels f other.state
  cursor : other.cursor = r.cursor.relabel f

/-- The same length mark has been read. -/
structure Length.Relabels (r other : Length) : Prop where
  wanted : other.wanted = r.wanted
  state : r.state.Relabels f other.state
  cursor : other.cursor = r.cursor.relabel f

/-- The same size has been read. -/
structure Size.Relabels (r other : Size) : Prop where
  missing : other.missing = r.missing
  mark : other.mark = r.mark
  state : r.state.Relabels f other.state
  cursor : other.cursor = r.cursor.relabel f

end

variable {f : String → String} {s t : State}

namespace State.Relabels

/-- A problem at the same place. -/
theorem fault (relabels : s.Relabels f t) (fault other : ParseFault) (span : Span) :
    (s.fault fault span).Relabels f (t.fault other span) := by
  obtain ⟨faults, same, rfl⟩ := relabels
  exact ⟨⟨.grammar, other.message, some span, none⟩ :: faults, congrArg (some span :: ·) same, rfl⟩

theorem ask (relabels : s.Relabels f t) (d : Demand) : (s.ask d).Relabels f (t.ask d) := by
  obtain ⟨faults, same, rfl⟩ := relabels
  have count : faults.length = s.faults.length := by
    simpa only [List.length_map] using congrArg List.length same
  refine ⟨faults, same, ?_⟩
  unfold State.ask State.relabel
  dsimp only
  rw [count]

theorem expected (relabels : s.Relabels f t) (what other : String) (c : Cursor) :
    (s.expected what c).Relabels f (t.expected other (c.relabel f)) := by
  obtain ⟨last, rest⟩ := c
  cases rest with
  | nil =>
    show (s.fault _ last.span).Relabels f (t.fault _ (last.relabel f).span)
    rw [Token.span_relabel]
    exact relabels.fault _ _ _
  | cons token rest =>
    show (s.fault _ token.span).Relabels f (t.fault _ (token.relabel f).span)
    rw [Token.span_relabel]
    exact relabels.fault _ _ _

theorem unclosed (last : Token) (arrays : List OpenArray) : ∀ {s t : State}, s.Relabels f t →
    (s.unclosed last arrays).Relabels f
      (t.unclosed (last.relabel f) (arrays.map (OpenArray.relabel f))) := by
  induction arrays with
  | nil => exact fun relabels => relabels
  | cons _ rest ih =>
    intro s t relabels
    rw [List.map_cons, State.unclosed, State.unclosed, Token.span_relabel]
    exact ih (relabels.fault _ _ _)

theorem refer (relabels : s.Relabels f t) {token : Token} (kind : token.kind = .reference) :
    (t.refer (token.relabel f)).1 =
        (s.refer token).1.mapReferences (Reference.relabel f) ∧
      (s.refer token).2.Relabels f (t.refer (token.relabel f)).2 := by
  obtain ⟨faults, same, rfl⟩ := relabels
  have name : String.ofList ((token.relabel f).text.toList.drop 1) =
      f (String.ofList (token.text.toList.drop 1)) := by
    unfold Token.relabel
    rw [kind]
    exact name_of_reference _
  unfold State.refer
  rw [name, Token.span_relabel]
  exact ⟨rfl, faults, same, rfl⟩

/-- A statement is labelled alike: a label is taken exactly if it is taken under its other name. -/
theorem addStatement (injective : Function.Injective f) (relabels : s.Relabels f t) (span : Span)
    (body : Statement.Body) : (s.addStatement span body).Relabels f
      (t.addStatement span (body.mapReferences (Reference.relabel f))) := by
  obtain ⟨faults, same, rfl⟩ := relabels
  obtain ⟨statements, labels, references, block, outer, waiting, earlier, demands⟩ := s
  have size : (statements.map (Statement.relabel f)).size = statements.size := Array.size_map
  cases waiting with
  | none =>
    refine ⟨faults, same, ?_⟩
    unfold State.addStatement State.relabel
    dsimp only [Option.map_none]
    rw [Array.map_push, size]
    rfl
  | some entry =>
    have found := LabelTable.find?_relabel injective entry.1 labels
    unfold State.addStatement State.relabel
    dsimp only [Option.map_some]
    rw [found, size]
    by_cases taken : (labels.find? entry.1).isSome = true
    · rw [if_pos taken, if_pos taken, Token.span_relabel]
      refine fault (s := ⟨statements.push ⟨statements.size, span, none, body⟩, labels, references,
        block, outer, none, earlier, demands⟩) ⟨faults, same, ?_⟩ _ _ _
      unfold State.relabel
      rw [Array.map_push]
      rfl
    · rw [if_neg taken, if_neg taken]
      refine ⟨faults, same, ?_⟩
      unfold State.relabel
      rw [Array.map_push, List.map_append]
      rfl

theorem openBlock (relabels : s.Relabels f t) : s.openBlock.Relabels f t.openBlock := by
  obtain ⟨faults, same, rfl⟩ := relabels
  exact ⟨faults, same, rfl⟩

theorem closeBlock (relabels : s.Relabels f t) (token : Token) :
    (s.closeBlock token).Relabels f (t.closeBlock (token.relabel f)) := by
  have fault := relabels.fault .unpairedBlockEnd .unpairedBlockEnd token.span
  obtain ⟨faults, same, rfl⟩ := relabels
  unfold State.closeBlock
  rw [Token.span_relabel, show (s.relabel f faults).outer = s.outer from rfl]
  split
  · exact fault
  · exact ⟨faults, same, rfl⟩

theorem awaitStatement (relabels : s.Relabels f t) {token : Token} (kind : token.kind = .label) :
    (s.awaitStatement token).Relabels f (t.awaitStatement (token.relabel f)) := by
  have name : String.ofList (token.relabel f).text.toList.dropLast =
      f (String.ofList token.text.toList.dropLast) := by
    unfold Token.relabel
    rw [kind]
    exact name_of_label _
  have faulted := fun span => relabels.fault .labelledLabel .labelledLabel span
  obtain ⟨faults, same, rfl⟩ := relabels
  unfold State.awaitStatement
  rw [name]
  rw [show (s.relabel f faults).waiting =
    s.waiting.map fun entry => (entry.1.relabel f, entry.2.relabel f) from rfl]
  cases waits : s.waiting with
  | none => exact ⟨faults, same, rfl⟩
  | some entry =>
    obtain ⟨more, places, next⟩ := faulted entry.2.span
    dsimp only [Option.map_some]
    rw [Token.span_relabel, next]
    exact ⟨more, places, rfl⟩

theorem addAction (injective : Function.Injective f) (relabels : s.Relabels f t) (token : Token)
    (action : Option Isa.Action) : (s.addAction token action).Relabels f
      (t.addAction (token.relabel f) action) := by
  unfold State.addAction
  rw [Token.span_relabel]
  cases action with
  | none => exact relabels.fault _ _ _
  | some x => exact relabels.addStatement injective _ (.action x)

theorem atEnd (relabels : s.Relabels f t) (tokens : List Token) :
    (s.atEnd tokens).Relabels f (t.atEnd (tokens.map (Token.relabel f))) := by
  have unused := fun label other span =>
    relabels.fault (.unusedLabel label) (.unusedLabel other) span
  have unclosed {u v : State} (relabels : u.Relabels f v) (span : Span) :=
    relabels.fault .unclosedBlock .unclosedBlock span
  obtain ⟨faults, same, rfl⟩ := relabels
  unfold State.atEnd
  dsimp only
  rw [List.getLast?_map, show (s.relabel f faults).waiting =
    s.waiting.map fun entry => (entry.1.relabel f, entry.2.relabel f) from rfl]
  cases s.waiting with
  | none =>
    rw [Option.map_none]
    dsimp only
    rw [show (s.relabel f faults).outer = s.outer from rfl]
    cases s.outer with
    | nil => exact ⟨faults, same, rfl⟩
    | cons block outer =>
      cases tokens.getLast? with
      | none => exact ⟨faults, same, rfl⟩
      | some last =>
        dsimp only [Option.map_some]
        rw [Token.span_relabel]
        exact unclosed ⟨faults, same, rfl⟩ last.span
  | some entry =>
    have unused := unused entry.1 (entry.1.relabel f) entry.2.span
    rw [Option.map_some]
    dsimp only
    rw [Token.span_relabel, show ((s.relabel f faults).fault (.unusedLabel (entry.1.relabel f))
      entry.2.span).outer = (s.fault (.unusedLabel entry.1) entry.2.span).outer from rfl]
    cases (s.fault (.unusedLabel entry.1) entry.2.span).outer with
    | nil => exact unused
    | cons block outer =>
      cases tokens.getLast? with
      | none => exact unused
      | some last =>
        dsimp only [Option.map_some]
        rw [Token.span_relabel]
        exact unclosed unused last.span

end State.Relabels

/-! ## Length marks -/

theorem readLength_relabel (relabels : s.Relabels f t) (c : Cursor) :
    (readLength s c).Relabels f (readLength t (c.relabel f)) := by
  obtain ⟨last, rest⟩ := c
  cases rest with
  | nil => exact ⟨rfl, relabels, rfl⟩
  | cons mark rest =>
    unfold readLength Cursor.relabel
    rw [List.map_cons]
    dsimp only
    rw [Token.kind_relabel]
    by_cases marks : mark.kind ≠ .arrayLength
    · rw [if_pos marks, if_pos marks]
      exact ⟨rfl, relabels, rfl⟩
    · rw [if_neg marks, if_neg marks]
      cases rest with
      | nil => exact ⟨rfl, relabels.expected _ _ ⟨mark, []⟩, rfl⟩
      | cons number more =>
        rw [List.map_cons]
        dsimp only
        rw [Token.kind_relabel]
        by_cases numeral : number.kind = .number
        · have same : number.relabel f = number :=
            Token.relabel_of_kind f numeral (by decide) (by decide)
          rw [if_pos numeral, if_pos numeral, same]
          exact ⟨rfl, relabels.ask _, congrArg (Cursor.mk · _) same.symm⟩
        · rw [if_neg numeral, if_neg numeral]
          exact ⟨rfl, relabels.expected _ _ ⟨mark, number :: more⟩, rfl⟩

theorem readSize_relabel (relabels : s.Relabels f t) (c : Cursor) (size : Nat)
    (short : ParseFault) (demand : Nat → Demand) :
    (readSize s c size short demand).Relabels f
      (readSize t (c.relabel f) size short demand) := by
  have length := readLength_relabel relabels c
  have last : (c.relabel f).last.span = c.last.span := Token.span_relabel f _
  unfold readSize
  dsimp only
  rw [length.wanted, last]
  split
  · exact ⟨rfl, rfl, length.state, length.cursor⟩
  · split
    · exact ⟨rfl, rfl, length.state.ask _, length.cursor⟩
    · exact ⟨rfl, rfl, length.state.fault _ _ _, length.cursor⟩

/-- The length mark ends at the same place. -/
theorem Size.Relabels.last {r other : Size} (relabels : r.Relabels f other) :
    other.cursor.last.span = r.cursor.last.span := by
  rw [relabels.cursor]
  exact Token.span_relabel f _

/-- A literal has been read, with other names. -/
structure Relabelled (f : String → String) (read other : Literal × State × Cursor) : Prop where
  literal : other.1 = read.1.mapReferences (Reference.relabel f)
  state : read.2.1.Relabels f other.2.1
  cursor : other.2.2 = read.2.2.relabel f

theorem readText_relabel (relabels : s.Relabels f t) {token : Token} (kind : token.kind = .string)
    (rest : List Token) : Relabelled f (readText s token rest)
      (readText t (token.relabel f) (rest.map (Token.relabel f))) := by
  have size := readSize_relabel relabels ⟨token, rest⟩ token.text.length .shortText fun wanted =>
    .sequence (wanted - token.text.length)
  have last := size.last
  have same : token.relabel f = token := Token.relabel_of_kind f kind (by decide) (by decide)
  unfold Cursor.relabel at size last
  dsimp only at size last
  rw [same] at size last ⊢
  rw [readText_eq, readText_eq]
  dsimp only
  rw [last, size.missing]
  exact ⟨rfl, size.state, size.cursor⟩

theorem closeArray_relabel (relabels : s.Relabels f t) (array : OpenArray) (bracket : Token)
    (rest : List Token) : Relabelled f (closeArray s array bracket rest)
      (closeArray t (array.relabel f) (bracket.relabel f) (rest.map (Token.relabel f))) := by
  have size := readSize_relabel relabels ⟨bracket, rest⟩ array.elements.length .shortArray .growth
  have last := size.last
  have count : (array.relabel f).elements.length = array.elements.length := List.length_map _
  have start : (array.relabel f).start.span = array.start.span := Token.span_relabel f _
  have filled (n : Nat) (mark : Span) :
      (array.relabel f).elements.reverse ++ List.replicate n (Literal.number 0 mark) =
        Literal.mapAllReferences (Reference.relabel f)
          (array.elements.reverse ++ List.replicate n (.number 0 mark)) := by
    rw [Literal.mapAllReferences_eq_map, List.map_append, List.map_reverse, List.map_replicate]
    rfl
  unfold Cursor.relabel at size last
  dsimp only at size last
  rw [closeArray_eq, closeArray_eq, count]
  dsimp only
  rw [last, size.missing, size.mark, filled, start]
  exact ⟨rfl, size.state, size.cursor⟩

theorem skipArray_relabel (f : String → String) (depth : Nat) (last : Token)
    (tokens : List Token) :
    skipArray depth (last.relabel f) (tokens.map (Token.relabel f)) =
      (skipArray depth last tokens).relabel f := by
  induction tokens generalizing depth last with
  | nil => rfl
  | cons token rest ih =>
    rw [List.map_cons]
    unfold skipArray
    rw [Token.kind_relabel]
    split
    · exact ih _ _
    · cases depth with
      | zero => rfl
      | succ inner => exact ih _ _
    · exact ih _ _

/-! ## Literals -/

theorem readArray_relabel (limit : Int) (s : State) (top : OpenArray) (outer : List OpenArray)
    (last : Token) (tokens : List Token) : ∀ {t : State}, s.Relabels f t →
    (readArray limit s top outer last tokens).Relabels f
      (readArray limit t (top.relabel f) (outer.map (OpenArray.relabel f)) (last.relabel f)
        (tokens.map (Token.relabel f))) := by
  fun_induction readArray limit s top outer last tokens with
  | case1 s top outer last =>
    intro t relabels
    rw [List.map_nil, readArray]
    exact ⟨rfl, relabels.unclosed last (top :: outer), rfl⟩
  | case2 s top outer last token rest kind literal =>
    rename_i ih
    intro t relabels
    have same : token.relabel f = token := Token.relabel_of_kind f kind (by decide) (by decide)
    rw [List.map_cons, readArray_number ((Token.kind_relabel f token).trans kind), same]
    have read := ih (relabels.ask _)
    rw [same] at read
    exact read
  | case3 s top outer last token rest kind literal next referred ih =>
    intro t relabels
    obtain ⟨same, state⟩ := relabels.refer kind
    rw [referred] at same state
    rw [List.map_cons, readArray_reference ((Token.kind_relabel f token).trans kind), same]
    exact ih state
  | case4 s top outer last token rest kind r =>
    rename_i ih
    intro t relabels
    obtain ⟨literal, state, cursor⟩ := readText_relabel relabels kind rest
    rw [List.map_cons, readArray_string ((Token.kind_relabel f token).trans kind), literal, cursor]
    exact ih state
  | case5 s top outer last token rest kind asked deep c =>
    rename_i ih
    intro t relabels
    rw [List.map_cons, readArray, Token.kind_relabel, Token.span_relabel]
    simp only [kind, List.length_map, if_pos deep, skipArray_relabel]
    exact ih ((relabels.ask _).fault _ _ _)
  | case6 s top outer last token rest kind asked shallow =>
    rename_i ih
    intro t relabels
    have low : ¬limit ≤ (outer.map (OpenArray.relabel f)).length + 1 := by
      rw [List.length_map]
      exact shallow
    rw [List.map_cons, readArray_start ((Token.kind_relabel f token).trans kind) _ _ _ _ _ low,
      List.length_map]
    exact ih (relabels.ask _)
  | case7 s top last token rest kind =>
    intro t relabels
    obtain ⟨literal, state, cursor⟩ := closeArray_relabel relabels top token rest
    rw [List.map_cons, List.map_nil,
      readArray_end_last ((Token.kind_relabel f token).trans kind), literal]
    exact ⟨rfl, state, cursor⟩
  | case8 s top last token rest kind r around further =>
    rename_i ih
    intro t relabels
    obtain ⟨literal, state, cursor⟩ := closeArray_relabel relabels top token rest
    rw [List.map_cons, List.map_cons, readArray_end ((Token.kind_relabel f token).trans kind),
      literal, cursor]
    exact ih state
  | case9 s top outer last token rest number reference string start stop ih =>
    intro t relabels
    rw [List.map_cons, readArray, Token.kind_relabel, Token.span_relabel]
    split
    all_goals try contradiction
    exact ih (relabels.fault _ _ _)

theorem readLiteralFrom_relabel (limit : Int) (relabels : s.Relabels f t) (token : Token)
    (rest : List Token) :
    (readLiteralFrom limit s token rest).Relabels f
      (readLiteralFrom limit t (token.relabel f) (rest.map (Token.relabel f))) := by
  unfold readLiteralFrom
  rw [Token.kind_relabel, Token.span_relabel]
  split
  · rename_i kind
    have same : token.relabel f = token := Token.relabel_of_kind f kind (by decide) (by decide)
    rw [same]
    exact ⟨rfl, relabels.ask _, congrArg (Cursor.mk · _) same.symm⟩
  · rename_i kind
    obtain ⟨same, state⟩ := relabels.refer kind
    exact ⟨congrArg some same, state, rfl⟩
  · rename_i kind
    obtain ⟨literal, state, cursor⟩ := readText_relabel relabels kind rest
    exact ⟨congrArg some literal, state, cursor⟩
  · dsimp only
    split
    · exact ⟨rfl, (relabels.ask _).fault _ _ _, skipArray_relabel f 0 token rest⟩
    · exact readArray_relabel limit _ ⟨token, []⟩ [] token rest (relabels.ask _)

theorem startsLiteral_relabel (f : String → String) (token : Token) :
    startsLiteral (token.relabel f) = startsLiteral token := by
  unfold startsLiteral
  rw [Token.kind_relabel]

theorem readLiteral_relabel (limit : Int) (relabels : s.Relabels f t) (c : Cursor) :
    (readLiteral limit s c).Relabels f (readLiteral limit t (c.relabel f)) := by
  obtain ⟨last, rest⟩ := c
  cases rest with
  | nil => exact ⟨rfl, relabels, rfl⟩
  | cons token rest =>
    unfold readLiteral Cursor.relabel
    rw [List.map_cons]
    dsimp only
    rw [startsLiteral_relabel]
    split
    · exact readLiteralFrom_relabel limit relabels token rest
    · exact ⟨rfl, relabels, rfl⟩

/-! ## Statements -/

/-- The source part of a movement, with other names. -/
structure SourcePart.Relabels (f : String → String) (part other : SourcePart) : Prop where
  word : other.word = part.word
  token : other.token.span = part.token.span
  reading : part.reading.Relabels f other.reading

theorem readSource_relabel (limit : Int) (relabels : s.Relabels f t) (c : Cursor) :
    (readSource limit s c).2.Relabels f (readSource limit t (c.relabel f)).2 ∧
      Option.Rel (SourcePart.Relabels f) (readSource limit s c).1
        (readSource limit t (c.relabel f)).1 := by
  obtain ⟨last, rest⟩ := c
  cases rest with
  | nil => exact ⟨⟨rfl, relabels, rfl⟩, .none⟩
  | cons token rest =>
    have literal := readLiteral_relabel limit relabels ⟨last, token :: rest⟩
    have behind := readLiteral_relabel limit relabels ⟨token, rest⟩
    unfold Cursor.relabel at literal behind ⊢
    unfold readSource
    rw [List.map_cons] at literal ⊢
    dsimp only at literal behind ⊢
    rw [Token.kind_relabel]
    split
    · rename_i kind
      have same : token.relabel f = token := Token.relabel_of_kind f kind (by decide) (by decide)
      exact ⟨behind, .some ⟨congrArg Token.text same, Token.span_relabel f token, behind⟩⟩
    · refine ⟨literal, ?_⟩
      rw [literal.literal, Option.isSome_map]
      dsimp only
      split
      · exact .some ⟨rfl, Token.span_relabel f token, literal⟩
      · exact .none

theorem State.Relabels.badLocation (relabels : s.Relabels f t) (known : String → Bool)
    (role bare : String) (indexed : Bool) {token other : Token} (place : other.span = token.span) :
    (s.badLocation known role bare indexed token).Relabels f
      (t.badLocation known role bare indexed other) := by
  unfold State.badLocation
  rw [place]
  exact relabels.fault _ _ _

theorem addMovement_relabel (injective : Function.Injective f) (target : Token)
    (location : target.kind = .location) (index : Option Literal) {part other : SourcePart}
    (parts : part.Relabels f other) :
    (addMovement target index part).Relabels f
      (addMovement (target.relabel f)
        (index.map (Literal.mapReferences (Reference.relabel f))) other) := by
  obtain ⟨word, place, ⟨literal, state, cursor⟩⟩ := parts
  have same : target.relabel f = target :=
    Token.relabel_of_kind f location (by decide) (by decide)
  have last : other.reading.cursor.last.span = part.reading.cursor.last.span := by
    rw [cursor]
    exact Token.span_relabel f _
  unfold addMovement
  dsimp only
  rw [same, word, last, literal, Option.isSome_map, Option.isSome_map]
  split
  · exact state.addStatement injective _
      (.movement _ _ index part.reading.literal)
  · have destination : (if (Isa.Destination.ofName?
          (locationName target.text index.isSome)).isSome = true then part.reading.state
        else part.reading.state.badLocation
          (fun name => (Isa.Destination.ofName? name).isSome) "destination" target.text
          index.isSome target).Relabels f
        (if (Isa.Destination.ofName? (locationName target.text index.isSome)).isSome = true then
          other.reading.state
        else other.reading.state.badLocation
          (fun name => (Isa.Destination.ofName? name).isSome) "destination" target.text
          index.isSome target) := by
      split
      · exact state
      · exact state.badLocation _ _ _ _ rfl
    split
    · exact destination
    · exact destination.badLocation _ _ _ _ place

theorem readMovement_relabel (limit : Int) (injective : Function.Injective f)
    (relabels : s.Relabels f t) {target : Token} (location : target.kind = .location)
    (rest : List Token) :
    (readMovement limit s target rest).1.Relabels f
        (readMovement limit t (target.relabel f) (rest.map (Token.relabel f))).1 ∧
      (readMovement limit t (target.relabel f) (rest.map (Token.relabel f))).2 =
        (readMovement limit s target rest).2.relabel f := by
  have index := readLiteral_relabel limit relabels ⟨target, rest⟩
  unfold readMovement
  unfold Cursor.relabel at index
  dsimp only at index ⊢
  generalize readLiteral limit s ⟨target, rest⟩ = r at index
  generalize readLiteral limit t ⟨target.relabel f, rest.map (Token.relabel f)⟩ = other at index
  obtain ⟨literal, next, last, left⟩ := r
  obtain ⟨_, after, _⟩ := other
  obtain ⟨rfl, state, rfl⟩ := index
  have expected (what : String) := state.expected what what ⟨last, left⟩
  unfold Cursor.relabel at expected
  cases left with
  | nil =>
    dsimp only [List.map_nil]
    rw [Option.isSome_map]
    exact ⟨expected _, rfl⟩
  | cons sign behind =>
    have source := readSource_relabel limit state ⟨sign, behind⟩
    have shape : Cursor.relabel f ⟨last, sign :: behind⟩ =
        ⟨last.relabel f, sign.relabel f :: behind.map (Token.relabel f)⟩ := rfl
    unfold Cursor.relabel at source
    rw [shape]
    dsimp only
    rw [Token.kind_relabel, Option.isSome_map]
    split
    · generalize readSource limit next ⟨sign, behind⟩ = read at source
      generalize readSource limit after
        ⟨sign.relabel f, behind.map (Token.relabel f)⟩ = read' at source
      obtain ⟨part?, reading⟩ := read
      obtain ⟨other?, reading'⟩ := read'
      obtain ⟨⟨-, later, cursor⟩, parts⟩ := source
      dsimp only at later cursor parts
      cases parts with
      | none =>
        dsimp only
        rw [cursor]
        exact ⟨later.expected _ _ _, rfl⟩
      | some parts => exact ⟨addMovement_relabel injective target location literal parts, cursor⟩
    · split
      · exact ⟨expected _, rfl⟩
      · exact ⟨expected _, rfl⟩

theorem readStatement_relabel (limit : Int) (injective : Function.Injective f)
    (relabels : s.Relabels f t) (token : Token) (rest : List Token) :
    (readStatement limit s token rest).1.Relabels f
        (readStatement limit t (token.relabel f) (rest.map (Token.relabel f))).1 ∧
      (readStatement limit t (token.relabel f) (rest.map (Token.relabel f))).2 =
        (readStatement limit s token rest).2.relabel f := by
  have waits : t.waiting.isSome = s.waiting.isSome := by
    obtain ⟨faults, -, rfl⟩ := relabels
    exact Option.isSome_map
  have text (label : token.kind ≠ .label) (reference : token.kind ≠ .reference) :
      (token.relabel f).text = token.text :=
    congrArg Token.text (Token.relabel_of_ne f label reference)
  unfold readStatement
  rw [Token.kind_relabel]
  split
  · rename_i kind
    rw [text (kind ▸ by decide) (kind ▸ by decide)]
    exact ⟨relabels.addAction injective token _, rfl⟩
  · rename_i kind
    rw [text (kind ▸ by decide) (kind ▸ by decide)]
    exact ⟨relabels.addAction injective token _, rfl⟩
  · rename_i kind
    rw [text (kind ▸ by decide) (kind ▸ by decide), Token.span_relabel]
    exact ⟨relabels.addStatement injective _ (.condition _), rfl⟩
  · exact ⟨relabels.awaitStatement ‹_›, rfl⟩
  · exact readMovement_relabel limit injective relabels ‹_› rest
  · exact ⟨relabels.openBlock, rfl⟩
  · exact ⟨relabels.closeBlock token, rfl⟩
  · rw [waits]
    split
    · have read := readLiteralFrom_relabel limit relabels token rest
      generalize readLiteralFrom limit s token rest = r at read
      generalize readLiteralFrom limit t (token.relabel f) (rest.map (Token.relabel f)) = other
        at read
      obtain ⟨literal, next, c⟩ := r
      obtain ⟨_, after, _⟩ := other
      obtain ⟨rfl, state, rfl⟩ := read
      cases literal with
      | none => exact ⟨state, rfl⟩
      | some literal =>
        dsimp only [Option.map_some]
        have place : ∀ r : Reference, (r.relabel f).span = r.span := fun _ => rfl
        rw [Literal.span_mapReferences place]
        exact ⟨state.addStatement injective _ (.constant literal), rfl⟩
    · rw [Token.span_relabel]
      exact ⟨relabels.fault _ _ _, rfl⟩

theorem readStatements_relabel (injective : Function.Injective f) (limit : Int) (s : State)
    (tokens : List Token) : ∀ {t : State}, s.Relabels f t →
      (readStatements limit s tokens).Relabels f
        (readStatements limit t (tokens.map (Token.relabel f))) := by
  fun_induction readStatements limit s tokens with
  | case1 s =>
    intro t relabels
    rw [List.map_nil, readStatements]
    exact relabels
  | case2 s token rest next =>
    rename_i ih
    intro t relabels
    obtain ⟨state, cursor⟩ := readStatement_relabel limit injective relabels token rest
    rw [List.map_cons, readStatements, cursor]
    exact ih state

end Parser

/-! ## Programs -/

section
variable {f : String → String} {limit : Int}

/-- Parsing tokens with other names gives the program with other names, and problems at the same
    places. -/
theorem parseStatements_relabel (injective : Function.Injective f) (limit : Int)
    (tokens : List Token) :
    (parseStatements limit (tokens.map (Token.relabel f))).1 =
        (parseStatements limit tokens).1.relabel f ∧
      (parseStatements limit (tokens.map (Token.relabel f))).2.map Diagnostic.span =
        (parseStatements limit tokens).2.map Diagnostic.span := by
  have initial : Parser.State.initial.Relabels f .initial := by
    refine ⟨[], rfl, ?_⟩
    unfold Parser.State.relabel Parser.State.initial
    rw [Array.map_empty]
    rfl
  obtain ⟨faults, places, same⟩ :=
    (Parser.readStatements_relabel injective limit .initial tokens initial).atEnd tokens
  unfold parseStatements
  dsimp only
  rw [same]
  refine ⟨?_, ?_⟩
  · unfold Parser.State.relabel Program.relabel
    dsimp only
    rw [List.map_reverse]
  · rw [List.map_reverse, List.map_reverse]
    exact congrArg List.reverse places

/-- A reference means the same statement under its other name. -/
theorem target?_relabel (injective : Function.Injective f) (table : LabelTable) (r : Reference) :
    (r.relabel f).target? (table.map (LabelTable.relabelEntry f)) = r.target? table := by
  have found (block : BlockPath) := LabelTable.find?_relabel injective ⟨block, r.name⟩ table
  unfold Reference.target? Reference.resolve?
  refine congrArg (Option.map Prod.snd) (congrArg (List.findSome? · _) (funext fun block => ?_))
  exact congrArg (Option.map _) (found block)

/-- What comes of the references is the same. -/
theorem states_relabel (injective : Function.Injective f) {p : Program}
    (inside : ∀ r ∈ p.references, r.block ≠ []) :
    (p.relabel f).resolution.1.map Search.state = p.resolution.1.map Search.state := by
  rw [Program.resolution_fst, Program.resolution_fst, List.map_map, List.map_map]
  unfold Program.relabel
  rw [List.map_map]
  refine List.map_congr_left fun r member => ?_
  have here : ((Search.start r).settle p.labels.keys).state = _ :=
    Search.state_settle_target (inside r member)
  have there : ((Search.start (r.relabel f)).settle
      (LabelTable.keys (p.labels.map (LabelTable.relabelEntry f)))).state = _ :=
    Search.state_settle_target (inside r member)
  rw [target?_relabel injective] at there
  exact there.trans here.symm

theorem executable_relabel (p : Program) :
    (p.relabel f).executable = p.executable.map (Statement.relabel f) := by
  have same : (fun s : Statement => !s.isConstant) ∘ Statement.relabel f =
      fun s => !s.isConstant := by
    funext s
    obtain ⟨id, span, label, body⟩ := s
    cases body <;> rfl
  unfold Program.executable Program.relabel
  rw [Array.toList_map, List.filter_map, same]

/-- The program with other names mirrors the original one. -/
theorem mirrors_relabel (injective : Function.Injective f) (p : Program) :
    p.Mirrors (Reference.relabel f) id (p.relabel f) where
  injective := Function.injective_id
  code := by
    rw [executable_relabel, List.forall₂_map_right_iff, List.forall₂_same]
    exact fun _ _ => ⟨rfl, rfl⟩
  meant r _ s found := by
    refine ⟨s.relabel f, ?_, ⟨rfl, rfl⟩⟩
    unfold Program.meant? at found ⊢
    unfold Program.relabel
    dsimp only
    rw [target?_relabel injective]
    obtain ⟨id, target, here⟩ := Option.bind_eq_some_iff.1 found
    rw [target, Option.bind_some, Array.getElem?_map, here]
    rfl

/-! ## Images -/

/-- The tokens are parsed without a problem exactly if they are under their other names. -/
theorem problems_relabel (injective : Function.Injective f) (limit : Int) (tokens : List Token) :
    (parse limit (tokens.map (Token.relabel f))).problems = [] ↔
      (parse limit tokens).problems = [] := by
  obtain ⟨program, places⟩ := parseStatements_relabel injective limit tokens
  have faults : (parseStatements limit (tokens.map (Token.relabel f))).2 = [] ↔
      (parseStatements limit tokens).2 = [] := by
    rw [← List.map_eq_nil_iff (f := Diagnostic.span), places, List.map_eq_nil_iff]
  have inside : ∀ r ∈ ((parseStatements limit tokens).1.relabel f).references, r.block ≠ [] := by
    rw [← program]
    exact fun _ => block_ne_nil
  have resolved : ((parseStatements limit tokens).1.relabel f).resolution.2 = [] ↔
      (parseStatements limit tokens).1.resolution.2 = [] := by
    rw [Program.resolution_eq_nil_iff_target inside,
      Program.resolution_eq_nil_iff_target fun _ => block_ne_nil]
    unfold Program.relabel
    dsimp only
    rw [List.forall_mem_map]
    exact forall₂_congr fun r _ => by rw [target?_relabel injective]
  rw [problems_parse, problems_parse, List.append_eq_nil_iff,
    List.append_eq_nil_iff, program, faults, resolved]

theorem known_relabel {token : Token} (known : token.Known) : (token.relabel f).Known := by
  have kept (label : token.kind ≠ .label) (reference : token.kind ≠ .reference) :
      (token.relabel f).Known := by
    rw [Token.relabel_of_ne f label reference]
    exact known
  by_cases label : token.kind = .label
  · unfold Token.Known
    rw [Token.kind_relabel, label]
    trivial
  · by_cases reference : token.kind = .reference
    · unfold Token.Known
      rw [Token.kind_relabel, reference]
      trivial
    · exact kept label reference

/-- The image with other names for the labels. -/
def Output.relabel (f : String → String) (o : Output) : Output :=
  ⟨o.words, o.placements, o.program.relabel f⟩

variable {tokens : List Token}

/-- Tokens are assembled under other names for the labels exactly if they are assembled, and to the
    image with the other names. -/
theorem assembles_relabel_iff (config : Config) (injective : Function.Injective f)
    (known : ∀ token ∈ tokens, token.Known) (other : Output) :
    Assembles config (tokens.map (Token.relabel f)) other ↔
      ∃ o, Assembles config tokens o ∧ other = o.relabel f := by
  have known' : ∀ token ∈ tokens.map (Token.relabel f), token.Known :=
    List.forall_mem_map.2 fun token member => known_relabel (known token member)
  have cleans := problems_relabel injective config.maxLiteralDepth tokens
  have program := (parseStatements_relabel injective config.maxLiteralDepth tokens).1
  have mirrors := mirrors_relabel injective (parseStatements config.maxLiteralDepth tokens).1
  rw [← program] at mirrors
  have images (clean : (parse config.maxLiteralDepth tokens).problems = []) :=
    assembles_mirrored_iff known known' clean (cleans.2 clean) mirrors other
  have relabelled (o : Output) (assembles : Assembles config tokens o) :
      (⟨o.words, o.placements.map (Placement.reindex id),
        (parseStatements config.maxLiteralDepth (tokens.map (Token.relabel f))).1⟩ : Output) =
        o.relabel f := by
    rw [program, ← assembles.program]
    exact congrArg (Output.mk o.words · _) (Array.map_id o.placements)
  constructor
  · intro assembles
    obtain ⟨o, original, same⟩ := (images (cleans.1 assembles.parsed)).1 assembles
    exact ⟨o, original, same.trans (relabelled o original)⟩
  · rintro ⟨o, assembles, same⟩
    exact (images assembles.parsed).2 ⟨o, assembles, same.trans (relabelled o assembles).symm⟩

end

/-! ## Names alone -/

instance : DecidablePred IsName := fun name =>
  decidable_of_iff (name ≠ "" ∧ name.toList.all Text.isWord = true)
    ⟨fun spelt => ⟨spelt.1, List.all_eq_true.1 spelt.2⟩,
      fun isName => ⟨isName.some, List.all_eq_true.2 isName.word⟩⟩

/-- What has no name stays as it is. -/
def onNames (f : String → String) (name : String) : String := if IsName name then f name else name

section
variable {f : String → String}

theorem onNames_of_isName {name : String} (isName : IsName name) : onNames f name = f name :=
  if_pos isName

/-- Names that are different stay different, and none comes to be the text of something else. -/
theorem onNames_injective (names : ∀ name, IsName name → IsName (f name))
    (injective : ∀ name other, IsName name → IsName other → f name = f other → name = other) :
    Function.Injective (onNames f) := by
  intro name other same
  unfold onNames at same
  split at same
  · rename_i isName
    split at same
    · rename_i isName'
      exact injective name other isName isName' same
    · rename_i isNone
      exact absurd (same ▸ names name isName) isNone
  · rename_i isNone
    split at same
    · rename_i isName
      exact absurd (same.symm ▸ names other isName) isNone
    · exact same

theorem Token.Named.relabel_onNames {token : Token} (named : token.Named) :
    token.relabel (onNames f) = token.relabel f := by
  unfold Token.relabel
  split
  · rename_i kind
    obtain ⟨name, isName, text⟩ := named.label kind
    rw [text, name_of_label, onNames_of_isName isName]
  · rename_i kind
    obtain ⟨name, isName, text⟩ := named.reference kind
    rw [text, name_of_reference, onNames_of_isName isName]
  · rfl

theorem Token.Named.relabel {token : Token} (named : token.Named)
    (names : ∀ name, IsName name → IsName (f name)) : (token.relabel f).Named := by
  refine ⟨fun kind => ?_, fun kind => ?_⟩
  all_goals rw [Token.kind_relabel] at kind
  · obtain ⟨name, isName, text⟩ := named.label kind
    refine ⟨f name, names name isName, ?_⟩
    unfold Token.relabel
    rw [kind]
    dsimp only
    rw [text, name_of_label]
  · obtain ⟨name, isName, text⟩ := named.reference kind
    refine ⟨f name, names name isName, ?_⟩
    unfold Token.relabel
    rw [kind]
    dsimp only
    rw [text, name_of_reference]

end

/-- The images have the same words and the same addresses, and their references mean the same; the
    names in the label table are exchanged under the same paths. -/
structure Output.Relabels (f : String → String) (o other : Output) : Prop where
  words : other.words = o.words
  addresses : other.placements = o.placements
  targets : other.program.resolution.1.map Search.state =
    o.program.resolution.1.map Search.state
  labels : other.program.labels = o.program.labels.map (LabelTable.relabelEntry f)

/-- The names of labels carry no meaning. Exchanged for other ones, different names for different
    ones, they are parsed and assembled without a problem exactly if they were before, to the same
    words, with the statements at the same addresses and references to the same statements. No two
    labels of an image have the same key or are shown alike, and its symbols are the labels whose
    statements have an address, each of them once. -/
theorem names_exchangeable (config : Config) (source : Source) {f : String → String}
    (names : ∀ name, IsName name → IsName (f name))
    (injective : ∀ name other, IsName name → IsName other → f name = f other → name = other) :
    let tokens := (lex source).value.tokens
    ((parse config.maxLiteralDepth (tokens.map (Token.relabel f))).problems = [] ↔
        (parse config.maxLiteralDepth tokens).problems = []) ∧
      ((∃ other, Assembles config (tokens.map (Token.relabel f)) other) ↔
        ∃ o, Assembles config tokens o) ∧
      ∀ o other, Assembles config tokens o →
        Assembles config (tokens.map (Token.relabel f)) other →
          o.Relabels f other ∧ o.Distinguishes ∧ other.Distinguishes := by
  intro tokens
  have named : ∀ token ∈ tokens, token.Named := named_lex source
  have known : ∀ token ∈ tokens, token.Known := (known_lex source).1
  have exchange := onNames_injective names injective
  have named' : ∀ token ∈ tokens.map (Token.relabel f), token.Named :=
    List.forall_mem_map.2 fun token member => (named token member).relabel names
  have same : tokens.map (Token.relabel f) = tokens.map (Token.relabel (onNames f)) :=
    List.map_congr_left fun token member => (named token member).relabel_onNames.symm
  have images := assembles_relabel_iff config exchange known
  rw [same] at named' ⊢
  refine ⟨problems_relabel exchange _ tokens, ⟨?_, ?_⟩, fun o other original renamed => ?_⟩
  · rintro ⟨other, renamed⟩
    obtain ⟨o, original, -⟩ := (images _).1 renamed
    exact ⟨o, original⟩
  · rintro ⟨o, original⟩
    exact ⟨_, (images _).2 ⟨o, original, rfl⟩⟩
  · refine ⟨?_, distinguishes_of_parsed named original.program,
      distinguishes_of_parsed named' renamed.program⟩
    obtain ⟨_, again, rfl⟩ := (images _).1 renamed
    cases original.unique again
    refine ⟨rfl, rfl, states_relabel exchange ?_, List.map_congr_left fun entry member => ?_⟩
    · rw [original.program]
      exact fun _ => block_ne_nil
    · rw [original.program] at member
      have isName := isName_of_parsed named entry member
      unfold LabelTable.relabelEntry Label.relabel
      rw [onNames_of_isName isName]

/-- Two names change places that a block within uses again, one of them for data. -/
theorem names_exchangeable_swap :
    let source := ⟨"shadow", "x: pc = :y #push pc = :x x: pc = :y #pop y: [:x 7]"⟩
    let tokens := (lex source).value.tokens
    let f := Equiv.swap "x" "y"
    ∃ o other, Assembles .standard tokens o ∧
      Assembles .standard (tokens.map (Token.relabel f)) other ∧
      (tokens.map (Token.relabel f)).map Token.text = ["y:", "pc", "=", ":x", "#push", "pc", "=",
        ":y", "y:", "pc", "=", ":x", "#pop", "x:", "[", ":y", "7", "]"] ∧
      o.words = #[508, 6, 508, 4, 508, 6, 0, 7] ∧ o.Relabels f other := by
  intro source tokens f
  have clean : (parse 32 tokens).problems = [] := by decide +kernel
  have laid : (layout 9 256 (parse 32 tokens).value).value.toOption.map (·.words) =
      some #[508, 6, 508, 4, 508, 6, 0, 7] := by decide +kernel
  have names (name : String) (isName : IsName name) : IsName (f name) := by
    rw [Equiv.swap_apply_def]
    split
    · decide
    · split
      · decide
      · exact isName
  obtain ⟨-, images, same⟩ :=
    names_exchangeable .standard source names fun _ _ _ _ => f.injective.eq_iff.1
  obtain ⟨o, original, words⟩ := exists_assembles .standard clean laid (by decide)
  obtain ⟨other, renamed⟩ := images.2 ⟨o, original⟩
  exact ⟨o, other, original, renamed, by decide +kernel, words, (same o other original renamed).1⟩

end NineBit.Asm

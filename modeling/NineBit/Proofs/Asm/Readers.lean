import Mathlib.Data.List.Infix
import NineBit.Proofs.Asm.Problems

/-!
# What readers of literals do

Reading a literal records problems, passes over tokens and takes references, and does nothing else.
A relation between what the parser has before and behind, in state and in tokens, that holds of each
of these and of one after another holds of all readers (`Parser.Passage`). That what a reader leaves
is a suffix of what it was given is the first such relation. A movement is a literal, an equals sign
and a source one after another, and what reading it comes to depends on which of them are there
(`Parser.ReadsMovement`). What reading a statement comes to depends on its first token
(`Parser.ReadsStatement`).
-/

namespace NineBit.Asm.Parser

/-! ## Tokens passed over -/

theorem suffix_readLength (s : State) (c : Cursor) : (readLength s c).cursor.rest <:+ c.rest := by
  unfold readLength
  split
  · exact List.suffix_refl _
  · rename_i mark rest same
    split
    · exact List.suffix_refl _
    · rw [same]
      split
      · exact List.suffix_cons _ _
      · rename_i number more
        split
        · exact (List.suffix_cons number more).trans (List.suffix_cons _ _)
        · exact List.suffix_cons _ _

theorem suffix_readSize (s : State) (c : Cursor) (size : Nat) (short : ParseFault)
    (demand : Nat → Demand) : (readSize s c size short demand).cursor.rest <:+ c.rest := by
  have length := suffix_readLength s c
  unfold readSize
  dsimp only
  split
  · exact length
  · split <;> exact length

theorem suffix_readText (s : State) (token : Token) (rest : List Token) :
    (readText s token rest).2.2.rest <:+ rest := by
  rw [readText_eq]
  exact suffix_readSize s ⟨token, rest⟩ _ _ _

theorem suffix_closeArray (s : State) (array : OpenArray) (bracket : Token) (rest : List Token) :
    (closeArray s array bracket rest).2.2.rest <:+ rest := by
  rw [closeArray_eq]
  exact suffix_readSize s ⟨bracket, rest⟩ _ _ _

theorem suffix_skipArray (depth : Nat) (last : Token) (tokens : List Token) :
    (skipArray depth last tokens).rest <:+ tokens := by
  fun_induction skipArray depth last tokens with
  | case1 => exact List.suffix_refl _
  | case2 _ _ _ _ _ ih => exact ih.trans (List.suffix_cons _ _)
  | case3 => exact List.suffix_cons _ _
  | case4 _ _ _ _ _ ih => exact ih.trans (List.suffix_cons _ _)
  | case5 _ _ _ _ _ _ ih => exact ih.trans (List.suffix_cons _ _)

/-! ## Passages -/

/-- A relation between a state with the tokens before it and a later state with those that are left:
    it holds where problems are recorded and tokens passed over, where a reference is taken, and of
    one such passage after another. -/
structure Passage (P : State → List Token → State → List Token → Prop) : Prop where
  pass {s next : State} {tokens left : List Token} (faulted : s.Faulted next)
    (rest : left <:+ tokens) : P s tokens next left
  refer (s : State) {token : Token} (kind : token.kind = .reference) (rest : List Token) :
    P s (token :: rest) (s.refer token).2 rest
  trans {s middle next : State} {tokens between left : List Token}
    (first : P s tokens middle between) (second : P middle between next left) : P s tokens next left

namespace Passage

variable {P : State → List Token → State → List Token → Prop} (passage : Passage P)

include passage

/-- A passage has begun with a token. -/
theorem cons {s next : State} {tokens left : List Token} (token : Token)
    (later : P s tokens next left) : P s (token :: tokens) next left :=
  passage.trans (passage.pass (.refl s) (List.suffix_cons token tokens)) later

/-- A passage has begun with a token and with a demand. -/
theorem asking {s next : State} {tokens left : List Token} (token : Token) {d : Demand}
    (sized : d.Sized) (later : P (s.ask d) tokens next left) : P s (token :: tokens) next left :=
  passage.trans (passage.pass (.ask s sized) (List.suffix_cons token tokens)) later

theorem readText (s : State) (token : Token) (rest : List Token) :
    P s rest (readText s token rest).2.1 (readText s token rest).2.2.rest :=
  passage.pass (.readText s token rest) (suffix_readText s token rest)

theorem closeArray (s : State) (array : OpenArray) (bracket : Token) (rest : List Token) :
    P s rest (closeArray s array bracket rest).2.1 (closeArray s array bracket rest).2.2.rest :=
  passage.pass (.closeArray s array bracket rest) (suffix_closeArray s array bracket rest)

theorem readArray (limit : Int) (s : State) (top : OpenArray) (outer : List OpenArray)
    (last : Token) (tokens : List Token) :
    P s tokens (readArray limit s top outer last tokens).state
      (readArray limit s top outer last tokens).cursor.rest := by
  fun_induction Parser.readArray limit s top outer last tokens with
  | case1 s top outer last => exact passage.pass (.unclosed last _ s) (List.suffix_refl _)
  | case2 s top outer last token rest kind literal ih =>
    exact passage.asking token (.numeral _) ih
  | case3 s top outer last token rest kind literal next referred ih =>
    have first := passage.refer s kind rest
    rw [referred] at first
    exact passage.trans first ih
  | case4 s top outer last token rest kind r ih =>
    exact passage.cons token (passage.trans (passage.readText s token rest) ih)
  | case5 s top outer last token rest kind asked deep c ih =>
    have skipped := passage.pass (.fault asked (.deepArray limit) token.span)
      (suffix_skipArray 0 token rest)
    exact passage.asking token (.nesting _) (passage.trans skipped ih)
  | case6 s top outer last token rest kind asked shallow ih =>
    exact passage.asking token (.nesting _) ih
  | case7 s top last token rest kind r =>
    exact passage.cons token (passage.closeArray s top token rest)
  | case8 s top last token rest kind r around further ih =>
    exact passage.cons token (passage.trans (passage.closeArray s top token rest) ih)
  | case9 s top outer last token rest _ _ _ _ _ ih =>
    have faulted := passage.pass (.fault s .noLiteral token.span) (List.suffix_refl rest)
    exact passage.cons token (passage.trans faulted ih)

theorem readLiteralFrom (limit : Int) (s : State) (token : Token) (rest : List Token) :
    P s (token :: rest) (readLiteralFrom limit s token rest).state
      (readLiteralFrom limit s token rest).cursor.rest := by
  unfold Parser.readLiteralFrom
  split
  · exact passage.pass (.askNumber s token) (List.suffix_cons _ _)
  · rename_i kind
    exact passage.refer s kind rest
  · exact passage.cons token (passage.readText s token rest)
  · dsimp only
    split
    · exact passage.asking token (.nesting 1)
        (passage.pass (.fault _ _ _) (suffix_skipArray 0 token rest))
    · exact passage.asking token (.nesting 1) (passage.readArray limit _ ⟨token, []⟩ [] token rest)

theorem readLiteral (limit : Int) (s : State) (c : Cursor) :
    P s c.rest (readLiteral limit s c).state (readLiteral limit s c).cursor.rest := by
  unfold Parser.readLiteral
  split
  · rename_i token rest same
    split
    · rw [same]
      exact passage.readLiteralFrom limit s token rest
    · exact passage.pass (.refl s) (List.suffix_refl _)
  · exact passage.pass (.refl s) (List.suffix_refl _)

theorem readSource (limit : Int) (s : State) (c : Cursor) :
    P s c.rest (readSource limit s c).2.state (readSource limit s c).2.cursor.rest := by
  unfold Parser.readSource
  split
  · exact passage.pass (.refl s) (List.suffix_refl _)
  · rename_i token rest same
    dsimp only
    split
    · rw [same]
      exact passage.cons token (passage.readLiteral limit s ⟨token, rest⟩)
    · exact passage.readLiteral limit s c

/-- The source of a movement has been read, behind the literal of its destination and a sign. -/
theorem source (limit : Int) (s : State) (target : Token) {rest behind : List Token} {sign : Token}
    (left : (Parser.readLiteral limit s ⟨target, rest⟩).cursor.rest = sign :: behind) :
    P s (target :: rest)
      (Parser.readSource limit (Parser.readLiteral limit s ⟨target, rest⟩).state
        ⟨sign, behind⟩).2.state
      (Parser.readSource limit (Parser.readLiteral limit s ⟨target, rest⟩).state
        ⟨sign, behind⟩).2.cursor.rest := by
  have index := passage.readLiteral limit s ⟨target, rest⟩
  rw [left] at index
  have source := passage.readSource limit (Parser.readLiteral limit s ⟨target, rest⟩).state
    ⟨sign, behind⟩
  exact passage.cons target (passage.trans index (passage.cons sign source))

end Passage

/-! ## What is left to read -/

theorem passage_suffix : Passage fun _ tokens _ left => left <:+ tokens where
  pass _ rest := rest
  refer _ _ _ rest := List.suffix_cons _ rest
  trans first second := second.trans first

theorem suffix_readLiteral (limit : Int) (s : State) (c : Cursor) :
    (readLiteral limit s c).cursor.rest <:+ c.rest :=
  passage_suffix.readLiteral limit s c

theorem suffix_readSource (limit : Int) (s : State) (c : Cursor) :
    (readSource limit s c).2.cursor.rest <:+ c.rest :=
  passage_suffix.readSource limit s c

/-- A literal takes its first token at least. -/
theorem suffix_readLiteralFrom (limit : Int) (s : State) (token : Token) (rest : List Token) :
    (readLiteralFrom limit s token rest).cursor.rest <:+ rest := by
  have shorter := readLiteralFrom_le limit s token rest
  have suffix := passage_suffix.readLiteralFrom limit s token rest
  rcases List.suffix_cons_iff.1 suffix with whole | left
  · rw [whole, List.length_cons] at shorter
    omega
  · exact left

/-! ## Movements -/

theorem reading_of_readSource {limit : Int} {s : State} {c : Cursor} {part : SourcePart}
    {r : Reading} (found : readSource limit s c = (some part, r)) : part.reading = r := by
  unfold readSource at found
  split at found
  · cases found
  · dsimp only at found
    split at found
    · cases found
      rfl
    · simp only [Prod.mk.injEq] at found
      obtain ⟨some, rfl⟩ := found
      split at some
      · cases some
        rfl
      · cases some

/-- What reading a movement comes to, by what stands behind the literal of its destination. -/
inductive ReadsMovement (limit : Int) (s : State) (target : Token) (rest : List Token) :
    State × Cursor → Prop where
  /-- Something else than an equals sign, or nothing. -/
  | unsigned (what : String) : ReadsMovement limit s target rest
      ((readLiteral limit s ⟨target, rest⟩).state.expected what
        (readLiteral limit s ⟨target, rest⟩).cursor, (readLiteral limit s ⟨target, rest⟩).cursor)
  /-- An equals sign and no source. -/
  | sourceless {sign : Token} {behind : List Token} {r : Reading} (what : String)
      (left : (readLiteral limit s ⟨target, rest⟩).cursor.rest = sign :: behind)
      (found : readSource limit (readLiteral limit s ⟨target, rest⟩).state ⟨sign, behind⟩ =
        (none, r)) :
      ReadsMovement limit s target rest (r.state.expected what r.cursor, r.cursor)
  /-- An equals sign and a source. -/
  | whole {sign : Token} {behind : List Token} {part : SourcePart}
      (left : (readLiteral limit s ⟨target, rest⟩).cursor.rest = sign :: behind)
      (equals : sign.kind = .movement)
      (found : readSource limit (readLiteral limit s ⟨target, rest⟩).state ⟨sign, behind⟩ =
        (some part, part.reading)) :
      ReadsMovement limit s target rest
        (addMovement target (readLiteral limit s ⟨target, rest⟩).literal part, part.reading.cursor)

theorem readsMovement (limit : Int) (s : State) (target : Token) (rest : List Token) :
    ReadsMovement limit s target rest (readMovement limit s target rest) := by
  unfold readMovement
  dsimp only
  split
  · rename_i sign behind left
    split
    · rename_i equals
      split
      · rename_i part r found
        obtain rfl := reading_of_readSource found
        exact .whole left equals found
      · rename_i r found
        exact .sourceless _ left found
    · split
      · exact .unsigned _
      · exact .unsigned _
  · exact .unsigned _

/-- What reading a statement, a label or a mark comes to, by its first token. -/
inductive ReadsStatement (limit : Int) (s : State) (token : Token) (rest : List Token) :
    State × Cursor → Prop where
  | registerAction (kind : token.kind = .registerAction) : ReadsStatement limit s token rest
      (s.addAction token (registerAction? token.text), ⟨token, rest⟩)
  | controlAction (kind : token.kind = .action) : ReadsStatement limit s token rest
      (s.addAction token (controlAction? token.text), ⟨token, rest⟩)
  | condition (kind : token.kind = .condition) : ReadsStatement limit s token rest
      (s.addStatement token.span (.condition (.ofMarks (token.text.toList.drop 1))), ⟨token, rest⟩)
  | label (kind : token.kind = .label) :
      ReadsStatement limit s token rest (s.awaitStatement token, ⟨token, rest⟩)
  | movement (kind : token.kind = .location) :
      ReadsStatement limit s token rest (readMovement limit s token rest)
  | opening (kind : token.kind = .blockStart) :
      ReadsStatement limit s token rest (s.openBlock, ⟨token, rest⟩)
  | closing (kind : token.kind = .blockEnd) :
      ReadsStatement limit s token rest (s.closeBlock token, ⟨token, rest⟩)
  /-- Behind a label, a text or an array. -/
  | constant {literal : Literal} (waits : s.waiting.isSome = true)
      (kind : token.kind = .string ∨ token.kind = .arrayStart)
      (found : (readLiteralFrom limit s token rest).literal = some literal) :
      ReadsStatement limit s token rest
        ((readLiteralFrom limit s token rest).state.addStatement literal.span (.constant literal),
          (readLiteralFrom limit s token rest).cursor)
  /-- Behind a label, a text or an array that is given up. -/
  | unread (waits : s.waiting.isSome = true)
      (kind : token.kind = .string ∨ token.kind = .arrayStart)
      (none : (readLiteralFrom limit s token rest).literal = none) :
      ReadsStatement limit s token rest
        ((readLiteralFrom limit s token rest).state, (readLiteralFrom limit s token rest).cursor)
  /-- A token that begins nothing here. -/
  | unexpected (start : token.kind ≠ .blockStart) (ends : token.kind ≠ .blockEnd) :
      ReadsStatement limit s token rest
        (s.fault (.unexpected token.text) token.span, ⟨token, rest⟩)

theorem readsStatement (limit : Int) (s : State) (token : Token) (rest : List Token) :
    ReadsStatement limit s token rest (readStatement limit s token rest) := by
  unfold readStatement
  split
  · exact .registerAction ‹_›
  · exact .controlAction ‹_›
  · exact .condition ‹_›
  · exact .label ‹_›
  · exact .movement ‹_›
  · exact .opening ‹_›
  · exact .closing ‹_›
  · rename_i start ends
    split
    · rename_i constant
      simp only [Bool.and_eq_true, Bool.or_eq_true, decide_eq_true_eq] at constant
      obtain ⟨waits, kind⟩ := constant
      dsimp only
      split
      · exact .constant waits kind ‹_›
      · exact .unread waits kind ‹_›
    · exact .unexpected start ends

end NineBit.Asm.Parser

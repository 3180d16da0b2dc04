import Mathlib.Algebra.GroupWithZero.Nat
import NineBit.Proofs.Asm.Origins
import NineBit.Proofs.Asm.Strings

/-!
# Spans and the text they point into

A line and a column lead back to a place of the text: the lines before it are counted with their
newlines (`Position.offset?`). From the ends of a token's span one gets the characters that the
token was made of (`Span.Covers`, `Token.SpeltBy`), those of later tokens come behind them, and the
caret of a message about a token stands below its first character (`Span.Of.pointsAt`).
-/

namespace NineBit

/-! ## Lines and columns -/

namespace Position

/-- The number of characters before a column of a line, both counted from zero, if the lines have
    such a place. -/
def offsetIn? (lines : List (List Char)) (row column : Nat) : Option Nat :=
  match lines[row]? with
  | none => none
  | some line =>
    if column ≤ line.length then some (((lines.take row).map (·.length + 1)).sum + column) else none

/-- The number of characters of a text before a place, if it has such a place. Newline characters
    end its lines, and nothing else does. -/
def offset? (text : List Char) (p : Position) : Option Nat :=
  if 1 ≤ p.line ∧ 1 ≤ p.column then
    offsetIn? (Text.pieces (· == '\n') text) (p.line - 1).toNat (p.column - 1).toNat
  else none

theorem head?_pieces (text : List Char) :
    (Text.pieces (· == '\n') text).head? = some (text.takeWhile (· != '\n')) := by
  induction text with
  | nil => rfl
  | cons c rest ih =>
    unfold Text.pieces
    by_cases newline : c = '\n'
    · rw [if_pos (beq_iff_eq.2 newline), newline]
      rfl
    · rw [if_neg (by simpa using newline), List.takeWhile_cons_of_pos (by simpa using newline)]
      cases pieces : Text.pieces (· == '\n') rest with
      | nil => exact absurd pieces (Text.pieces_ne_nil _ _)
      | cons piece more =>
        rw [pieces] at ih
        rw [← Option.some.inj ih]
        rfl

/-- Behind some characters of a text one is in a line of it, at a column. -/
structure Located (before rest : List Char) (row column : Nat) (line : List Char) : Prop where
  place : ∀ p : Position, p.afterAll before =
    ⟨p.line + row, (if row = 0 then p.column else 1) + column⟩
  found : (Text.pieces (· == '\n') (before ++ rest))[row]? = some line
  ahead : line.drop column = rest.takeWhile (· != '\n')
  le : column ≤ line.length
  offset : (((Text.pieces (· == '\n') (before ++ rest)).take row).map (·.length + 1)).sum + column =
    before.length

namespace Located

variable {before rest line : List Char} {row column : Nat}

/-- A newline before all else puts one more line before. -/
theorem newline (located : Located before rest row column line) :
    Located ('\n' :: before) rest (row + 1) column line := by
  have pieces : Text.pieces (· == '\n') ('\n' :: before ++ rest) =
      [] :: Text.pieces (· == '\n') (before ++ rest) := rfl
  refine ⟨fun p => ?_, ?_, located.ahead, located.le, ?_⟩
  · have step : p.afterAll ('\n' :: before) = (p.after '\n').afterAll before := rfl
    rw [step, located.place, after, if_pos rfl]
    grind
  · rw [pieces]
    exact located.found
  · rw [pieces, List.take_succ_cons, List.map_cons, List.sum_cons, List.length_cons,
      ← located.offset]
    simp
    omega

/-- Another character before all else belongs to the first line. -/
theorem cons (located : Located before rest row column line) {c : Char} (inside : c ≠ '\n') :
    ∃ column line, Located (c :: before) rest row column line := by
  cases first : Text.pieces (· == '\n') (before ++ rest) with
  | nil => exact absurd first (Text.pieces_ne_nil _ _)
  | cons piece more =>
    have pieces : Text.pieces (· == '\n') (c :: before ++ rest) = (c :: piece) :: more := by
      rw [List.cons_append, Text.pieces, if_neg (by simpa using inside), first]
    have step (p : Position) : p.afterAll (c :: before) = (p.after c).afterAll before := rfl
    have found := located.found
    have offset := located.offset
    rw [first] at found offset
    cases row with
    | zero =>
      cases found
      refine ⟨column + 1, c :: line, fun p => ?_, ?_, located.ahead,
        Nat.succ_le_succ located.le, ?_⟩
      · rw [step, located.place, after, if_neg inside]
        grind
      · rw [pieces]
        rfl
      · simp at offset ⊢
        omega
    | succ row =>
      refine ⟨column, line, fun p => ?_, ?_, located.ahead, located.le, ?_⟩
      · rw [step, located.place, after, if_neg inside]
        grind
      · rw [pieces]
        exact found
      · rw [pieces]
        simp at offset ⊢
        omega

end Located

theorem located (before rest : List Char) : ∃ row column line,
    Located before rest row column line := by
  induction before with
  | nil =>
    refine ⟨0, 0, rest.takeWhile (· != '\n'), fun p => ?_, ?_, rfl, Nat.zero_le _, rfl⟩
    · simp [afterAll]
    · rw [← head?_pieces, List.head?_eq_getElem?]
      rfl
  | cons c before ih =>
    obtain ⟨row, column, line, located⟩ := ih
    by_cases newline : c = '\n'
    · rw [newline]
      exact ⟨row + 1, column, line, located.newline⟩
    · obtain ⟨column, line, located⟩ := located.cons newline
      exact ⟨row, column, line, located⟩

/-- The place behind some characters leads back to their number. -/
theorem offset?_afterAll (before rest : List Char) :
    offset? (before ++ rest) (first.afterAll before) = some before.length := by
  obtain ⟨row, column, line, located⟩ := located before rest
  have place : first.afterAll before = ⟨1 + row, 1 + column⟩ := by
    rw [located.place, first, ite_self]
  rw [place, offset?, if_pos ⟨by dsimp only; omega, by dsimp only; omega⟩]
  have row' : ((1 : Int) + row - 1).toNat = row := by omega
  have column' : ((1 : Int) + column - 1).toNat = column := by omega
  dsimp only
  rw [row', column', offsetIn?, located.found]
  dsimp only
  rw [if_pos located.le, located.offset]

/-- What stands behind a place stands at its column of its line, if it does not end the line. -/
theorem line_afterAll (before : List Char) {c : Char} (rest : List Char) (inside : c ≠ '\n') :
    ∃ (row column : Nat) (chars : List Char), first.afterAll before = ⟨1 + row, 1 + column⟩ ∧
      (Text.pieces (· == '\n') (before ++ c :: rest))[row]? = some chars ∧
      chars[column]? = some c := by
  obtain ⟨row, column, line, located⟩ := located before (c :: rest)
  refine ⟨row, column, line, ?_, located.found, ?_⟩
  · rw [located.place, first, ite_self]
  · have ahead := located.ahead
    rw [List.takeWhile_cons_of_pos (by simpa using inside)] at ahead
    rw [← List.head?_drop, ahead, List.head?_cons]

end Position

/-! ## Spans -/

/-- The span leads to characters of the text: those that its ends delimit. -/
structure Span.Covers (span : Span) (source : Source) (offset : Nat) (chars : List Char) :
    Prop where
  within : span.source = source
  start : Position.offset? source.text.toList span.start = some offset
  stop : Position.offset? source.text.toList span.stop = some (offset + chars.length)
  cut : (source.text.toList.drop offset).take chars.length = chars
  nonempty : chars ≠ []

/-- The first span ends before the second one starts, or just there. -/
def Span.Precedes (first second : Span) (source : Source) : Prop :=
  ∃ stop start, Position.offset? source.text.toList first.stop = some stop ∧
    Position.offset? source.text.toList second.start = some start ∧ stop ≤ start

/-- The wording shows the line of a place of the source text, four columns further right, and the
    caret on the line below stands at the column of the place, where the line has this character.
    Lines and columns are counted from zero here and from one in places. -/
def Diagnostic.PointsAt (d : Diagnostic) (source : Source) (p : Position) (c : Char) : Prop :=
  ∃ (row column : Nat) (line first : String) (hints : List String),
    p = ⟨1 + row, 1 + column⟩ ∧ (Text.newlines source.text)[row]? = some line ∧
    line.toList[column]? = some c ∧
    d.wordingLines = first :: ("    " ++ line) ::
      (String.ofList (List.replicate (4 + column) ' ') ++ "^") :: hints

section
variable {source : Source} {span : Span} {before used : List Char}

theorem Span.Of.split (of : span.Of source before used) :
    ∃ rest, source.text.toList = before ++ (used ++ rest) := by
  obtain ⟨rest, whole⟩ := of.text
  exact ⟨rest, by rw [← whole, List.append_assoc]⟩

theorem Span.Of.offset_start (of : span.Of source before used) :
    Position.offset? source.text.toList span.start = some before.length := by
  obtain ⟨rest, whole⟩ := of.split
  rw [whole, of.start, Position.offset?_afterAll]

theorem Span.Of.offset_stop (of : span.Of source before used) :
    Position.offset? source.text.toList span.stop = some (before ++ used).length := by
  obtain ⟨rest, whole⟩ := of.split
  rw [whole, ← List.append_assoc, of.stop, Position.offset?_afterAll]

theorem Span.Of.covers (of : span.Of source before used) :
    span.Covers source before.length used where
  within := of.within
  start := of.offset_start
  stop := by rw [of.offset_stop, List.length_append]
  cut := by
    obtain ⟨rest, whole⟩ := of.split
    rw [whole, List.drop_left, List.take_left]
  nonempty := of.nonempty

/-- In the wording of every problem with these characters the caret stands below the first one. -/
theorem Span.Of.pointsAt {c : Char} {more : List Char} (of : span.Of source before (c :: more))
    (inside : c ≠ '\n') {d : Diagnostic} {marked : Span} (spans : d.span = some marked)
    (start : marked.start = span.start) (within : marked.source = source) :
    d.PointsAt source span.start c := by
  obtain ⟨rest, whole⟩ := of.split
  rw [List.cons_append] at whole
  obtain ⟨row, column, line, place, found, stands⟩ :=
    Position.line_afterAll before (more ++ rest) inside
  rw [← whole] at found
  have lines : (Text.newlines source.text)[row]? = some (String.ofList line) := by
    unfold Text.newlines
    rw [List.getElem?_map, found]
    rfl
  have shown : marked.lineText = String.ofList line := by
    unfold Span.lineText
    rw [start, of.start, place, within]
    dsimp only
    rw [if_neg (by omega), show ((1 : Int) + row - 1).toNat = row by omega, lines]
    rfl
  have characters : source.text.isEmpty = false := by
    rw [Bool.eq_false_iff, ne_eq, String.isEmpty_iff]
    intro empty
    rw [empty] at whole
    exact absurd whole.symm (by simp)
  have excerpt : Diagnostic.excerpt marked = ["    " ++ String.ofList line,
      String.ofList (List.replicate (4 + column) ' ') ++ "^"] := by
    unfold Diagnostic.excerpt
    rw [within, characters, if_neg Bool.false_ne_true, shown, start, of.start, place]
    dsimp only
    rw [if_pos (by omega), show ((3 : Int) + (1 + column)).toNat = 4 + column by omega]
  refine ⟨row, column, String.ofList line, s!"{marked.place}: error: {d.message}",
    ((d.hint.filter (!·.isEmpty)).map ("hint: " ++ ·)).toList, of.start.trans place, lines, ?_, ?_⟩
  · rw [String.toList_ofList]
    exact stands
  · unfold Diagnostic.wordingLines
    rw [spans, Option.map_some, excerpt]
    rfl

end

namespace Asm

/-! ## Tokens -/

/-- The characters that a token was made of: its text, or the literal of a string. -/
def Token.SpeltBy (token : Token) (chars : List Char) : Prop :=
  if token.kind = .string then
    ∃ inner value, chars = '"' :: (inner ++ ['"']) ∧ Lexeme.Denotes inner value ∧
      token.text = (String.ofList value).push closingNul
  else String.ofList chars = token.text

section
variable {source : Source} {token : Token} {before used : List Char}

theorem Token.From.speltBy (made : token.From source before used) : token.SpeltBy used := by
  obtain ⟨c, rest, lexeme, more, rfl, read, made⟩ := made.read
  unfold Lexeme.token? at made
  unfold SpeltBy
  split at made
  · obtain ⟨inner, value, literal, denotes, same⟩ := Lexeme.denotes_of_read read
    rw [← Option.some.inj made, if_pos rfl]
    exact ⟨inner, value, literal, denotes, by rw [same]⟩
  · rename_i kind
    have other : kind ≠ .string := by
      rintro rfl
      exact Lexeme.read_ne_string c rest (congrArg Prod.fst read)
    rw [← Option.some.inj made, if_neg other]
  · split at made
    · rw [← Option.some.inj made, if_neg nofun]
    · cases made
  · split at made
    · rw [← Option.some.inj made, if_neg nofun]
    · cases made
  · cases made

/-- No token starts with a separator, so that none starts with a newline. -/
theorem Token.From.starts (made : token.From source before used) :
    ∃ c more, used = c :: more ∧ Lexeme.isSeparator c = false := by
  obtain ⟨c, rest, lexeme, more, rfl, read, made⟩ := made.read
  refine ⟨c, _, rfl, Bool.eq_false_iff.2 fun separates => ?_⟩
  unfold Lexeme.read at read
  rw [if_pos separates] at read
  cases read
  cases made

/-- Tokens that come one behind the other have spans that do. -/
theorem Lexer.Behind.precedes {n : Nat} {tokens : List Token}
    (behind : Lexer.Behind source n tokens) :
    (∀ token ∈ tokens, ∃ stop, Position.offset? source.text.toList token.span.stop = some stop ∧
        stop ≤ n) ∧
      tokens.Pairwise fun later earlier => earlier.span.Precedes later.span source := by
  induction behind with
  | nil => exact ⟨fun _ member => absurd member List.not_mem_nil, .nil⟩
  | @cons n token before used tokens made le _ ih =>
    have inside : before.length ≤ (before ++ used).length := by simp
    refine ⟨List.forall_mem_cons.2 ⟨⟨_, made.span.offset_stop, le⟩, fun other member => ?_⟩,
      .cons (fun other member => ?_) ih.2⟩
    · obtain ⟨stop, ends, below⟩ := ih.1 other member
      exact ⟨stop, ends, by omega⟩
    · obtain ⟨stop, ends, below⟩ := ih.1 other member
      exact ⟨stop, _, ends, made.span.offset_start, below⟩

end

/-- The span of every token, in the program or in the body of a macro, leads back to the characters
    that the token is spelt by, and the caret of every problem with them points at the first one, at
    the line and the column where the token starts; in each list the spans follow one another
    without overlap, and the span of every problem of the lexer covers characters of the text. -/
theorem spans_faithful (source : Source) :
    (∀ tokens ∈ (lex source).value.tokens :: (lex source).value.macros.map Macro.body,
      (∀ token ∈ tokens, ∃ offset c more, token.span.Covers source offset (c :: more) ∧
        token.SpeltBy (c :: more) ∧
        ∀ (d : Diagnostic) (span : Span), d.span = some span → span.start = token.span.start →
          span.source = source → d.PointsAt source token.span.start c) ∧
      tokens.Pairwise fun first second => first.span.Precedes second.span source) ∧
    ∀ d ∈ (lex source).problems, ∃ span offset chars, d.span = some span ∧
      span.Covers source offset chars := by
  obtain ⟨program, macros, problems⟩ := placed_lex source
  have lists : ∀ tokens ∈ (lex source).value.tokens :: (lex source).value.macros.map Macro.body,
      Lexer.Behind source source.text.toList.length tokens.reverse := by
    refine List.forall_mem_cons.2 ⟨program, fun tokens member => ?_⟩
    obtain ⟨m, known, rfl⟩ := List.mem_map.1 member
    exact macros m known
  refine ⟨fun tokens listed => ⟨fun token member => ?_, ?_⟩, fun d member => ?_⟩
  · obtain ⟨before, used, made⟩ := (lists tokens listed).made token (List.mem_reverse.2 member)
    obtain ⟨c, more, rfl, starts⟩ := made.starts
    have inside : c ≠ '\n' := by
      rintro rfl
      exact absurd starts (by decide)
    exact ⟨_, c, more, made.span.covers, made.speltBy, fun d span spans start within =>
      made.span.pointsAt inside spans start within⟩
  · exact List.pairwise_reverse.1 (lists tokens listed).precedes.2
  · obtain ⟨span, before, used, spans, of⟩ := problems d member
    exact ⟨span, _, used, spans, of.covers⟩

end Asm

end NineBit

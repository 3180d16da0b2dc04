import NineBit.Asm.Program
import NineBit.Asm.Token
import NineBit.Diagnostic
import NineBit.Host
import NineBit.Text.Numeral

/-!
# Parsing

The parser turns expanded tokens into statements. It goes through them once, keeping the blocks
that are open, the label that waits for its statement, and what it has found so far. A problem is
recorded and parsing goes on: with the next token, or behind an array that is too deep. What the
parser asks of its host is recorded as well, with the number of problems found before; the parser
does not wait for an answer.
-/

namespace NineBit.Asm

/-- A problem with the form of a program. -/
inductive ParseFault where
  | unexpected (text : String)
  | unexpectedFor (text what : String)
  | missing (what : String)
  | labelledLabel
  | unusedLabel (label : Label)
  | duplicateLabel (label : Label)
  | unpairedBlockEnd
  | unclosedBlock
  | noIndex (role name : String)
  | needsIndex (role name : String)
  | noLocation (role name : String)
  | shortText
  | shortArray
  | deepArray (limit : Int)
  | noLiteral
  | unclosedArray
  deriving Repr, DecidableEq

/-- The wording of a problem. -/
def ParseFault.message : ParseFault → String
  | unexpected text => s!"unexpected token '{text}'"
  | unexpectedFor text what => s!"unexpected token '{text}', expected {what}"
  | missing what => s!"missing {what}"
  | labelledLabel => "cannot label a label"
  | unusedLabel label => s!"label '{label.display}' is not followed by a statement"
  | duplicateLabel label => s!"duplicate label '{label.display}'"
  | unpairedBlockEnd => "unpaired #pop"
  | unclosedBlock => "unclosed scope block, missing #pop"
  | noIndex role name => s!"{role} location '{name}' does not take a literal index"
  | needsIndex role name => s!"{role} location '{name}' requires a literal index"
  | noLocation role name => s!"invalid {role} location '{name}'"
  | shortText => "cannot set length smaller than the length of the string"
  | shortArray => "cannot set length smaller than the amount of elements"
  | deepArray limit => s!"array literal nested deeper than {limit} levels"
  | noLiteral => "unexpected token inside array, expected only literals"
  | unclosedArray => "missing array end ']'"

namespace Parser

/-- An open block and the number of blocks opened in it. -/
structure Block where
  number : Nat
  children : Nat
  deriving Repr

/-- What the parser keeps. The innermost block is `block`, those around it are `outer`, innermost
    first; references, faults and demands come last first. -/
structure State where
  statements : Array Statement
  labels : LabelTable
  references : List Reference
  block : Block
  outer : List Block
  waiting : Option (Label × Token)
  faults : List Diagnostic
  /-- What was asked of the host, each demand with the number of faults before it. -/
  demands : List (Nat × Demand)

namespace State

/-- Nothing parsed. -/
def initial : State where
  statements := #[]
  labels := []
  references := []
  block := ⟨0, 0⟩
  outer := []
  waiting := none
  faults := []
  demands := []

/-- The path of the innermost block. -/
def path (s : State) : BlockPath := ((s.block :: s.outer).map (·.number)).reverse

/-- Records a problem at a place. -/
def fault (s : State) (f : ParseFault) (span : Span) : State :=
  { s with faults := ⟨.grammar, f.message, some span, none⟩ :: s.faults }

/-- Records a demand. -/
def ask (s : State) (d : Demand) : State :=
  { s with demands := (s.faults.length, d) :: s.demands }

/-- Opens a block. -/
def openBlock (s : State) : State :=
  let number := s.block.children + 1
  { s with block := ⟨number, 0⟩, outer := { s.block with children := number } :: s.outer }

/-- Closes the innermost block, which must not be the outermost one. -/
def closeBlock (s : State) (token : Token) : State :=
  match s.outer with
  | [] => s.fault .unpairedBlockEnd token.span
  | block :: outer => { s with block := block, outer := outer }

/-- Lets a label wait for its statement. -/
def awaitStatement (s : State) (token : Token) : State :=
  let s :=
    match s.waiting with
    | some (_, earlier) => s.fault .labelledLabel earlier.span
    | none => s
  { s with waiting := some (⟨s.path, String.ofList token.text.toList.dropLast⟩, token) }

/-- Adds a statement, which the waiting label names unless that label is taken. -/
def addStatement (s : State) (span : Span) (body : Statement.Body) : State :=
  let id := s.statements.size
  match s.waiting with
  | none => { s with statements := s.statements.push ⟨id, span, none, body⟩ }
  | some (label, token) =>
    let s := { s with waiting := none }
    if (s.labels.find? label).isSome then
      { s with statements := s.statements.push ⟨id, span, none, body⟩ }.fault
        (.duplicateLabel label) token.span
    else
      { s with
        statements := s.statements.push ⟨id, span, some label, body⟩
        labels := s.labels ++ [(label, id)] }

end State

/-- A place among the tokens: the last token that was taken, and what follows it. -/
structure Cursor where
  last : Token
  rest : List Token

/-- Records that something is missing at a place. -/
def State.expected (s : State) (what : String) (c : Cursor) : State :=
  match c.rest with
  | token :: _ => s.fault (.unexpectedFor token.text what) token.span
  | [] => s.fault (.missing what) c.last.span

/-! ## Literals -/

/-- The value of digits. -/
def digits (radix : Nat) (text : List Char) : Nat :=
  text.foldl (fun value c => value * radix + (Text.digitValue? radix c).getD 0) 0

/-- The value of a number token: a character's code, or digits in the base that their mark
    tells. -/
def numberValue (text : String) : Nat :=
  match text.toList with
  | '\'' :: c :: _ => c.toNat
  | '0' :: 'x' :: rest => digits 16 rest
  | '0' :: 'b' :: rest => digits 2 rest
  | decimal => digits 10 decimal

/-- How many decimal digits a number token is read from. -/
def decimalLength (text : String) : Nat :=
  match text.toList with
  | '\'' :: _ :: _ => 0
  | '0' :: 'x' :: _ => 0
  | '0' :: 'b' :: _ => 0
  | decimal => decimal.length

/-- Records the demand that reading a number token makes. -/
def State.askNumber (s : State) (token : Token) : State :=
  s.ask (.numeral (decimalLength token.text))

/-- What a length mark says: the wanted length with its token, if there is a well-formed one. -/
structure Length where
  wanted : Option (Nat × Token)
  state : State
  cursor : Cursor

/-- Reads an optional length mark. -/
def readLength (s : State) (c : Cursor) : Length :=
  match c.rest with
  | [] => ⟨none, s, c⟩
  | mark :: rest =>
    if mark.kind ≠ .arrayLength then ⟨none, s, c⟩
    else
      match rest with
      | [] => ⟨none, s.expected "length after '~'" ⟨mark, rest⟩, ⟨mark, rest⟩⟩
      | number :: more =>
        if number.kind = .number then
          ⟨some (numberValue number.text, number), s.askNumber number, ⟨number, more⟩⟩
        else ⟨none, s.expected "length after '~'" ⟨mark, rest⟩, ⟨mark, rest⟩⟩

/-- The literal that was read, if there is one. -/
structure Reading where
  literal : Option Literal
  state : State
  cursor : Cursor

/-- How far something is filled up that lacks so many elements. No host has a sequence of more than
    the greatest length, and nothing is filled up then. -/
def filling (missing : Nat) : Nat := if missing ≤ Host.longest then missing else 0

/-- Reads the length mark of a string and fills its text up with NUL characters. -/
def readText (s : State) (token : Token) (rest : List Token) : Literal × State × Cursor :=
  let length := readLength s ⟨token, rest⟩
  let span := token.span.through length.cursor.last.span
  match length.wanted with
  | none => (.text token.text span, length.state, length.cursor)
  | some (wanted, mark) =>
    if token.text.length ≤ wanted then
      let missing := wanted - token.text.length
      let nuls := List.replicate (filling missing) closingNul
      (.text (token.text ++ String.ofList nuls) span, length.state.ask (.sequence missing),
        length.cursor)
    else (.text token.text span, length.state.fault .shortText mark.span, length.cursor)

/-- An array that is being read; its elements come last first. -/
structure OpenArray where
  start : Token
  elements : List Literal

/-- Reads the length mark of an array, behind its closing bracket, and fills it up with zeros. -/
def closeArray (s : State) (array : OpenArray) (bracket : Token) (rest : List Token) :
    Literal × State × Cursor :=
  let length := readLength s ⟨bracket, rest⟩
  let elements := array.elements.reverse
  let span := array.start.span.through length.cursor.last.span
  match length.wanted with
  | none => (.array elements span, length.state, length.cursor)
  | some (wanted, mark) =>
    if elements.length ≤ wanted then
      let zeros :=
        List.replicate (filling (wanted - elements.length)) (Literal.number 0 mark.span)
      (.array (elements ++ zeros) span, length.state.ask (.growth wanted), length.cursor)
    else (.array elements span, length.state.fault .shortArray mark.span, length.cursor)

/-- Goes behind the bracket that closes the array whose opening bracket was taken, `depth` arrays
    within it being open. -/
def skipArray (depth : Nat) (last : Token) : List Token → Cursor
  | [] => ⟨last, []⟩
  | token :: rest =>
    match token.kind with
    | .arrayStart => skipArray (depth + 1) token rest
    | .arrayEnd =>
      match depth with
      | 0 => ⟨token, rest⟩
      | inner + 1 => skipArray inner token rest
    | _ => skipArray depth token rest

theorem readLength_le (s : State) (c : Cursor) :
    (readLength s c).cursor.rest.length ≤ c.rest.length := by
  unfold readLength
  split
  · exact Nat.le_refl _
  · rename_i mark rest h
    rw [h]
    split
    · simp [h]
    · split
      · simp
      · split <;> simp
        omega

theorem readText_le (s : State) (token : Token) (rest : List Token) :
    (readText s token rest).2.2.rest.length ≤ rest.length := by
  have h := readLength_le s ⟨token, rest⟩
  unfold readText
  dsimp only
  split
  · exact h
  · split <;> exact h

theorem closeArray_le (s : State) (array : OpenArray) (bracket : Token) (rest : List Token) :
    (closeArray s array bracket rest).2.2.rest.length ≤ rest.length := by
  have h := readLength_le s ⟨bracket, rest⟩
  unfold closeArray
  dsimp only
  split
  · exact h
  · split <;> exact h

theorem skipArray_le (depth : Nat) (last : Token) (tokens : List Token) :
    (skipArray depth last tokens).rest.length ≤ tokens.length := by
  fun_induction skipArray depth last tokens <;> simp_all <;> omega

/-- Takes a reference written in the innermost block. -/
def State.refer (s : State) (token : Token) : Literal × State :=
  let r : Reference := ⟨String.ofList (token.text.toList.drop 1), s.path, token.span⟩
  (.reference r, { s with references := r :: s.references })

/-- Records for each open array that its end is missing. -/
def State.unclosed (s : State) (last : Token) : List OpenArray → State
  | [] => s
  | _ :: outer => (s.fault .unclosedArray last.span).unclosed last outer

/-- Reads an array whose opening bracket was taken. The innermost open array is `top`, those around
    it are `outer`, innermost first. -/
def readArray (limit : Int) (s : State) (top : OpenArray) (outer : List OpenArray) (last : Token)
    (tokens : List Token) : Reading :=
  match tokens with
  | [] => ⟨none, s.unclosed last (top :: outer), ⟨last, []⟩⟩
  | token :: rest =>
    match token.kind with
    | .number =>
      let literal := Literal.number (numberValue token.text) token.span
      readArray limit (s.askNumber token) { top with elements := literal :: top.elements } outer
        token rest
    | .reference =>
      let (literal, s) := s.refer token
      readArray limit s { top with elements := literal :: top.elements } outer token rest
    | .string =>
      let r := readText s token rest
      readArray limit r.2.1 { top with elements := r.1 :: top.elements } outer r.2.2.last
        r.2.2.rest
    | .arrayStart =>
      let s := s.ask (.nesting (outer.length + 2))
      if limit ≤ outer.length + 1 then
        let c := skipArray 0 token rest
        readArray limit (s.fault (.deepArray limit) token.span) top outer c.last c.rest
      else readArray limit s ⟨token, []⟩ (top :: outer) token rest
    | .arrayEnd =>
      let r := closeArray s top token rest
      match outer with
      | [] => ⟨some r.1, r.2.1, r.2.2⟩
      | around :: further =>
        readArray limit r.2.1 { around with elements := r.1 :: around.elements } further
          r.2.2.last r.2.2.rest
    | _ => readArray limit (s.fault .noLiteral token.span) top outer token rest
  termination_by tokens.length
  decreasing_by
    all_goals simp_wf
    all_goals
      have := readText_le s token rest
      have := closeArray_le s top token rest
      have := skipArray_le 0 token rest
      omega

/-- A token that starts a literal. -/
def startsLiteral (token : Token) : Bool :=
  token.kind = .number || token.kind = .reference || token.kind = .string ||
    token.kind = .arrayStart

/-- Reads the literal that a token starts, whose kind is one of those. -/
def readLiteralFrom (limit : Int) (s : State) (token : Token) (rest : List Token) : Reading :=
  match token.kind with
  | .number =>
    ⟨some (.number (numberValue token.text) token.span), s.askNumber token, ⟨token, rest⟩⟩
  | .reference =>
    let (literal, s) := s.refer token
    ⟨some literal, s, ⟨token, rest⟩⟩
  | .string =>
    let r := readText s token rest
    ⟨some r.1, r.2.1, r.2.2⟩
  | _ =>
    let s := s.ask (.nesting 1)
    if limit ≤ 0 then
      ⟨none, s.fault (.deepArray limit) token.span, skipArray 0 token rest⟩
    else readArray limit s ⟨token, []⟩ [] token rest

/-- Reads a literal if there is one. -/
def readLiteral (limit : Int) (s : State) (c : Cursor) : Reading :=
  match c.rest with
  | token :: rest =>
    if startsLiteral token then readLiteralFrom limit s token rest else ⟨none, s, c⟩
  | [] => ⟨none, s, c⟩

/-! ## Statements -/

/-- Records what is wrong with a location name that is no location in its role. -/
def State.badLocation (s : State) (known : String → Bool) (role bare : String) (indexed : Bool)
    (token : Token) : State :=
  let f : ParseFault :=
    if indexed && known bare then .noIndex role bare
    else if known (bare.push Isa.indexMark) then .needsIndex role bare
    else .noLocation role bare
  s.fault f token.span

/-- The name of a location, with the mark if it has an index. -/
def locationName (word : String) (indexed : Bool) : String :=
  if indexed then word.push Isa.indexMark else word

/-- The source part of a movement: the source's word, the token that problems point at, and its
    literal. -/
structure SourcePart where
  word : String
  token : Token
  reading : Reading

/-- Reads the source part of a movement behind its equals sign. -/
def readSource (limit : Int) (s : State) (c : Cursor) : Option SourcePart × Reading :=
  match c.rest with
  | [] => (none, ⟨none, s, c⟩)
  | token :: rest =>
    if token.kind = .location then
      let r := readLiteral limit s ⟨token, rest⟩
      (some ⟨token.text, token, r⟩, r)
    else
      let r := readLiteral limit s c
      (if r.literal.isSome then some ⟨"", token, r⟩ else none, r)

/-- Adds a movement whose parts have been read, if its locations are known. -/
def addMovement (target : Token) (index : Option Literal) (part : SourcePart) : State :=
  let s := part.reading.state
  let destination? := Isa.Destination.ofName? (locationName target.text index.isSome)
  let source? := Isa.Source.ofName? (locationName part.word part.reading.literal.isSome)
  match destination?, source? with
  | some destination, some source =>
    s.addStatement (target.span.through part.reading.cursor.last.span)
      (.movement destination source index part.reading.literal)
  | _, _ =>
    let s :=
      if destination?.isSome then s
      else
        s.badLocation (fun name => (Isa.Destination.ofName? name).isSome) "destination"
          target.text index.isSome target
    if source?.isSome then s
    else
      s.badLocation (fun name => (Isa.Source.ofName? name).isSome) "source" part.word
        part.reading.literal.isSome part.token

/-- Reads a movement behind the word of its destination. -/
def readMovement (limit : Int) (s : State) (target : Token) (rest : List Token) :
    State × Cursor :=
  let index := readLiteral limit s ⟨target, rest⟩
  match index.cursor.rest with
  | sign :: behind =>
    if sign.kind = .movement then
      match readSource limit index.state ⟨sign, behind⟩ with
      | (some part, r) => (addMovement target index.literal part, r.cursor)
      | (none, r) => (r.state.expected "location or literal" r.cursor, r.cursor)
    else if index.literal.isSome then (index.state.expected "'='" index.cursor, index.cursor)
    else (index.state.expected "'=', literal or reference" index.cursor, index.cursor)
  | [] =>
    let what := if index.literal.isSome then "'='" else "'=', literal or reference"
    (index.state.expected what index.cursor, index.cursor)

/-- The register action of a token's text. -/
def registerAction? (text : String) : Option Isa.Action :=
  match text.toList with
  | [symbol, letter] =>
    match Isa.Operation.ofSymbol? symbol, Isa.Register.ofLetter? letter with
    | some op, some r => some (.register op r)
    | _, _ => none
  | _ => none

/-- The control action of a token's text. -/
def controlAction? (text : String) : Option Isa.Action :=
  (Isa.Control.ofName? (String.ofList (text.toList.drop 1))).map Isa.Action.control

/-- Adds an action, or records that its token is none. -/
def State.addAction (s : State) (token : Token) (action : Option Isa.Action) : State :=
  match action with
  | some x => s.addStatement token.span (.action x)
  | none => s.fault (.unexpected token.text) token.span

/-- Reads one statement, label or block mark, given its first token. -/
def readStatement (limit : Int) (s : State) (token : Token) (rest : List Token) :
    State × Cursor :=
  match token.kind with
  | .registerAction => (s.addAction token (registerAction? token.text), ⟨token, rest⟩)
  | .action => (s.addAction token (controlAction? token.text), ⟨token, rest⟩)
  | .condition =>
    (s.addStatement token.span (.condition (.ofMarks (token.text.toList.drop 1))), ⟨token, rest⟩)
  | .label => (s.awaitStatement token, ⟨token, rest⟩)
  | .location => readMovement limit s token rest
  | .blockStart => (s.openBlock, ⟨token, rest⟩)
  | .blockEnd => (s.closeBlock token, ⟨token, rest⟩)
  | kind =>
    if s.waiting.isSome && (kind = .string || kind = .arrayStart) then
      let r := readLiteralFrom limit s token rest
      match r.literal with
      | some literal => (r.state.addStatement literal.span (.constant literal), r.cursor)
      | none => (r.state, r.cursor)
    else (s.fault (.unexpected token.text) token.span, ⟨token, rest⟩)

theorem readArray_le (limit : Int) (s : State) (top : OpenArray) (outer : List OpenArray)
    (last : Token) (tokens : List Token) :
    (readArray limit s top outer last tokens).cursor.rest.length ≤ tokens.length := by
  fun_induction readArray limit s top outer last tokens with
  | case1 => simp
  | case2 => simp only [List.length_cons]; omega
  | case3 => simp only [List.length_cons]; omega
  | case4 s top outer last token rest kind r ih =>
    exact Nat.le_succ_of_le (Nat.le_trans ih (readText_le s token rest))
  | case5 s top outer last token rest kind asked deep c ih =>
    exact Nat.le_succ_of_le (Nat.le_trans ih (skipArray_le 0 token rest))
  | case6 => simp only [List.length_cons]; omega
  | case7 s top last token rest kind r =>
    exact Nat.le_succ_of_le (closeArray_le s top token rest)
  | case8 s top last token rest kind r around further ih =>
    exact Nat.le_succ_of_le (Nat.le_trans ih (closeArray_le s top token rest))
  | case9 => simp only [List.length_cons]; omega

theorem readLiteralFrom_le (limit : Int) (s : State) (token : Token) (rest : List Token) :
    (readLiteralFrom limit s token rest).cursor.rest.length ≤ rest.length := by
  unfold readLiteralFrom
  split
  · exact Nat.le_refl _
  · exact Nat.le_refl _
  · exact readText_le s token rest
  · dsimp only
    split
    · exact skipArray_le 0 token rest
    · exact readArray_le limit _ ⟨token, []⟩ [] token rest

theorem readLiteral_le (limit : Int) (s : State) (c : Cursor) :
    (readLiteral limit s c).cursor.rest.length ≤ c.rest.length := by
  unfold readLiteral
  split
  · rename_i token rest h
    rw [h]
    split
    · have := readLiteralFrom_le limit s token rest
      simp only [List.length_cons]
      omega
    · simp [h]
  · exact Nat.le_refl _

theorem readSource_le (limit : Int) (s : State) (c : Cursor) :
    (readSource limit s c).2.cursor.rest.length ≤ c.rest.length := by
  unfold readSource
  split
  · exact Nat.le_refl _
  · rename_i token rest h
    rw [h]
    split
    · have := readLiteral_le limit s ⟨token, rest⟩
      simp only [List.length_cons]
      exact Nat.le_succ_of_le this
    · have := readLiteral_le limit s c
      rw [h] at this
      exact this

theorem readMovement_le (limit : Int) (s : State) (target : Token) (rest : List Token) :
    (readMovement limit s target rest).2.rest.length ≤ rest.length := by
  have h := readLiteral_le limit s ⟨target, rest⟩
  unfold readMovement
  dsimp only
  split
  · rename_i sign behind same
    rw [same] at h
    split
    · have := readSource_le limit (readLiteral limit s ⟨target, rest⟩).state ⟨sign, behind⟩
      simp only [List.length_cons] at h
      split
      all_goals
        rename_i found
        rw [found] at this
        simp only at this ⊢
        omega
    · split
      all_goals
        rw [same]
        exact h
  · rename_i same
    rw [same]
    exact Nat.zero_le _

theorem readStatement_le (limit : Int) (s : State) (token : Token) (rest : List Token) :
    (readStatement limit s token rest).2.rest.length ≤ rest.length := by
  unfold readStatement
  split
  case h_5 => exact readMovement_le limit s token rest
  case h_8 =>
    split
    · have := readLiteralFrom_le limit s token rest
      dsimp only
      split <;> exact this
    · exact Nat.le_refl _
  all_goals exact Nat.le_refl _

/-- Reads all statements. -/
def readStatements (limit : Int) (s : State) (tokens : List Token) : State :=
  match tokens with
  | [] => s
  | token :: rest =>
    let next := readStatement limit s token rest
    readStatements limit next.1 next.2.rest
  termination_by tokens.length
  decreasing_by
    have := readStatement_le limit s token rest
    simp_wf
    omega

/-- Records what is open at the end. -/
def State.atEnd (s : State) (tokens : List Token) : State :=
  let s :=
    match s.waiting with
    | some (label, token) => s.fault (.unusedLabel label) token.span
    | none => s
  match s.outer, tokens.getLast? with
  | _ :: _, some last => s.fault .unclosedBlock last.span
  | _, _ => s

end Parser

namespace Parser

/-- The state at the end of expanded tokens. Arrays may be nested up to a limit. -/
def finalState (limit : Int) (tokens : List Token) : State :=
  (readStatements limit .initial tokens).atEnd tokens

/-- The program that was parsed. -/
def State.program (s : State) : Program := ⟨s.statements, s.labels, s.references.reverse⟩

end Parser

/-- The statements of expanded tokens, and the problems found, in order. Arrays may be nested up to
    a limit. -/
def parseStatements (limit : Int) (tokens : List Token) : Program × List Diagnostic :=
  let s := (Parser.readStatements limit .initial tokens).atEnd tokens
  (⟨s.statements, s.labels, s.references.reverse⟩, s.faults.reverse)

end NineBit.Asm

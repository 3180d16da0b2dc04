import NineBit.Proofs.Asm.Gathering
import NineBit.Proofs.Asm.Success

/-!
# Parsed statements

Whatever the tokens, a statement carries its own index, a label names a statement that is there, and
every reference in a statement has been recorded. If the tokens are known, a statement can be
encoded: a movement has a literal just where its location takes a word, since a location's name ends
in the mark of an index just when a literal follows it (`source_takesWord`,
`destination_takesWord`), and a condition has something to test. Reading literals changes neither
statements nor labels and only adds to the references (`Parser.State.Extends`), so that all of this
holds of every statement that the parser adds (`Parser.State.Sound`).
-/

namespace NineBit.Asm

/-- A movement has a literal for each location that takes a word, and no other; a condition has a
    target. -/
def Statement.Body.Complete : Statement.Body → Prop
  | .movement destination source destinationLiteral sourceLiteral =>
    destination.takesWord = destinationLiteral.isSome ∧ source.takesWord = sourceLiteral.isSome
  | .condition c => c.targets ≠ []
  | _ => True

/-- The literals of a statement: its operands, the source's first, or its data. -/
def Statement.Body.literals : Statement.Body → List Literal
  | .movement _ _ destinationLiteral sourceLiteral =>
    sourceLiteral.toList ++ destinationLiteral.toList
  | .constant literal => [literal]
  | _ => []

namespace Parser

/-! ## Names of locations -/

theorem source_takesWord {word : String} {indexed : Bool} {source : Isa.Source}
    (known : Isa.isLocationWord word = true ∨ word = "" ∧ indexed = true)
    (named : Isa.Source.ofName? (locationName word indexed) = some source) :
    source.takesWord = indexed := by
  have words : ∀ word ∈ Isa.locationWords, ∀ indexed, ∀ source ∈ Isa.Source.all,
      Isa.Source.ofName? (locationName word indexed) = some source →
        source.takesWord = indexed := by
    decide +kernel
  rcases known with word | ⟨rfl, rfl⟩
  · exact words _ (List.contains_iff_mem.1 word) _ _ (Isa.Source.mem_all source) named
  · have bare : Isa.Source.ofName? (locationName "" true) = some .literal := by decide +kernel
    rw [bare] at named
    cases named
    rfl

theorem destination_takesWord {word : String} {indexed : Bool} {destination : Isa.Destination}
    (known : Isa.isLocationWord word = true)
    (named : Isa.Destination.ofName? (locationName word indexed) = some destination) :
    destination.takesWord = indexed := by
  have words : ∀ word ∈ Isa.locationWords, ∀ indexed, ∀ destination ∈ Isa.Destination.all,
      Isa.Destination.ofName? (locationName word indexed) = some destination →
        destination.takesWord = indexed := by
    decide +kernel
  exact words _ (List.contains_iff_mem.1 known) _ _ (Isa.Destination.mem_all destination) named

/-! ## Reading literals -/

/-- Statements and labels are the same, and every reference is still recorded. -/
structure State.Extends (s next : State) : Prop where
  statements : next.statements = s.statements
  labels : next.labels = s.labels
  references : ∀ r ∈ s.references, r ∈ next.references

theorem State.Extends.refl (s : State) : s.Extends s := ⟨rfl, rfl, fun _ member => member⟩

theorem State.Extends.trans {s middle next : State} (first : s.Extends middle)
    (second : middle.Extends next) : s.Extends next where
  statements := second.statements.trans first.statements
  labels := second.labels.trans first.labels
  references r member := second.references r (first.references r member)

/-- Every reference in a literal is recorded. -/
def State.Covers (s : State) (literal : Literal) : Prop :=
  ∀ r ∈ literal.mentions, r ∈ s.references

theorem State.Covers.mono {s next : State} {literal : Literal} (covers : s.Covers literal)
    (grown : s.Extends next) : next.Covers literal :=
  fun r member => grown.references r (covers r member)

theorem State.Faulted.extends {s next : State} (faulted : s.Faulted next) : s.Extends next := by
  obtain ⟨-, -, _, _, rfl⟩ := faulted
  exact ⟨rfl, rfl, fun _ member => member⟩

theorem passage_extends : Passage fun s _ next _ => s.Extends next where
  pass faulted _ := faulted.extends
  refer _ _ _ _ := ⟨rfl, rfl, fun _ member => List.mem_cons_of_mem _ member⟩
  trans first second := first.trans second

/-- What has been collected is covered. -/
theorem Reading.Collects.covers {limit : Nat} {s : State} {r : Reading}
    (collects : r.Collects limit s) : ∀ literal ∈ r.literal, r.state.Covers literal := by
  intro literal same reference mentioned
  obtain ⟨new, recorded, inside⟩ := collects.collects.references
  have found : reference ∈ Literal.mentionsOf r.literal.toList :=
    Literal.mem_mentionsOf.2 ⟨literal, Option.mem_toList.2 same, mentioned⟩
  rw [recorded]
  exact List.mem_append_left _ (inside.subset (List.mem_reverse.2 found))

/-- Reading has changed neither statements nor labels, and has recorded the references of what it
    has read. -/
structure Reading.Extends (s : State) (r : Reading) : Prop where
  state : s.Extends r.state
  covers : ∀ literal ∈ r.literal, r.state.Covers literal

theorem extends_readLiteralFrom (limit : Int) (s : State) (token : Token) (rest : List Token) :
    (readLiteralFrom limit s token rest).Extends s :=
  ⟨passage_extends.readLiteralFrom limit s token rest,
    (collects_readLiteralFrom limit s token rest).covers⟩

theorem extends_readLiteral (limit : Int) (s : State) (c : Cursor) :
    (readLiteral limit s c).Extends s :=
  ⟨passage_extends.readLiteral limit s c, (collects_readLiteral limit s c).covers⟩

theorem extends_readSource (limit : Int) (s : State) (c : Cursor) :
    (readSource limit s c).2.Extends s :=
  ⟨passage_extends.readSource limit s c, (collects_readSource limit s c).covers⟩

/-! ## Adding statements -/

section
variable {s : State} {span : Span} {body : Statement.Body} {label : Label} {token : Token}

/-- No label waits. -/
theorem addStatement_of_free (free : s.waiting = none) : s.addStatement span body =
    { s with statements := s.statements.push ⟨s.statements.size, span, none, body⟩ } := by
  unfold State.addStatement
  rw [free]

/-- The label that waits is not in the table yet. -/
theorem addStatement_of_fresh (waits : s.waiting = some (label, token))
    (fresh : ¬(s.labels.find? label).isSome = true) : s.addStatement span body =
      { s with
        waiting := none
        statements := s.statements.push ⟨s.statements.size, span, some label, body⟩
        labels := s.labels ++ [(label, s.statements.size)] } := by
  unfold State.addStatement
  rw [waits]
  exact if_neg fresh

/-- The label that waits is in the table. -/
theorem addStatement_of_taken (waits : s.waiting = some (label, token))
    (taken : (s.labels.find? label).isSome = true) : s.addStatement span body =
      State.fault
        { s with
          waiting := none
          statements := s.statements.push ⟨s.statements.size, span, none, body⟩ }
        (.duplicateLabel label) token.span := by
  unfold State.addStatement
  rw [waits]
  exact if_pos taken

end

/-- Every reference in a statement is recorded. -/
def State.CoversBody (s : State) (body : Statement.Body) : Prop :=
  ∀ literal ∈ body.literals, s.Covers literal

/-- Every statement carries its own index, can be encoded, and mentions only what is recorded; every
    label names a statement. -/
structure State.Sound (s : State) : Prop where
  id : ∀ (i : Nat) (h : i < s.statements.size), s.statements[i].id = i
  complete : ∀ statement ∈ s.statements, statement.body.Complete
  covers : ∀ statement ∈ s.statements, s.CoversBody statement.body
  labels : ∀ entry ∈ s.labels, entry.2 < s.statements.size

theorem sound_initial : State.initial.Sound where
  id i h := absurd h (Nat.not_lt_zero i)
  complete _ member := absurd member (Array.not_mem_empty _)
  covers _ member := absurd member (Array.not_mem_empty _)
  labels _ member := absurd member List.not_mem_nil

theorem State.Sound.extends {s next : State} (sound : s.Sound) (grown : s.Extends next) :
    next.Sound where
  id i h := by
    simp only [grown.statements] at h ⊢
    exact sound.id i h
  complete := by
    rw [grown.statements]
    exact sound.complete
  covers := by
    rw [grown.statements]
    exact fun statement member literal inside =>
      (sound.covers statement member literal inside).mono grown
  labels := by
    rw [grown.labels, grown.statements]
    exact sound.labels

theorem State.Sound.faulted {s next : State} (sound : s.Sound) (faulted : s.Faulted next) :
    next.Sound := sound.extends faulted.extends

/-- One more statement, and perhaps its label. -/
theorem State.Sound.push {s next : State} (sound : s.Sound) {statement : Statement}
    (pushed : next.statements = s.statements.push statement)
    (id : statement.id = s.statements.size) (complete : statement.body.Complete)
    (covers : s.CoversBody statement.body) (references : next.references = s.references)
    (labels : ∀ entry ∈ next.labels, entry ∈ s.labels ∨ entry.2 = s.statements.size) :
    next.Sound where
  id i h := by
    simp only [pushed] at h ⊢
    rw [Array.getElem_push]
    split
    · exact sound.id i _
    · rw [Array.size_push] at h
      omega
  complete := by
    rw [pushed]
    intro other member
    rcases Array.mem_push.1 member with old | rfl
    · exact sound.complete other old
    · exact complete
  covers := by
    rw [pushed]
    unfold State.CoversBody State.Covers
    rw [references]
    intro other member
    rcases Array.mem_push.1 member with old | rfl
    · exact sound.covers other old
    · exact covers
  labels := by
    intro entry member
    rw [pushed, Array.size_push]
    rcases labels entry member with old | new
    · have lt := sound.labels entry old
      omega
    · omega

theorem State.Sound.addStatement {s : State} (sound : s.Sound) (span : Span)
    {body : Statement.Body} (complete : body.Complete) (covers : s.CoversBody body) :
    (s.addStatement span body).Sound := by
  unfold State.addStatement
  dsimp only
  split
  · exact sound.push rfl rfl complete covers rfl fun _ => .inl
  · split
    · exact sound.push rfl rfl complete covers rfl fun _ => .inl
    · refine sound.push rfl rfl complete covers rfl fun entry member => ?_
      rcases List.mem_append.1 member with old | new
      · exact .inl old
      · rw [List.mem_singleton.1 new]
        exact .inr rfl

/-- The word of a movement's source is one that a location token has, or there is only a literal. -/
def SourcePart.Named (part : SourcePart) : Prop :=
  Isa.isLocationWord part.word = true ∨ part.word = "" ∧ part.reading.literal.isSome = true

theorem named_readSource {limit : Int} {s : State} {c : Cursor}
    (known : ∀ token ∈ c.rest, token.Known) {part : SourcePart} {r : Reading}
    (read : readSource limit s c = (some part, r)) : part.Named := by
  unfold readSource at read
  split at read
  · cases read
  · rename_i token rest same
    split at read
    · rename_i kind
      cases read
      have first := known token (by rw [same]; exact List.mem_cons_self)
      exact .inl (first.location kind)
    · dsimp only at read
      split at read
      · rename_i literal
        cases read
        exact .inr ⟨rfl, literal⟩
      · cases read

theorem sound_addMovement {target : Token} {index : Option Literal} {part : SourcePart}
    (sound : part.reading.state.Sound) (known : Isa.isLocationWord target.text = true)
    (named : part.Named) (first : ∀ literal ∈ index, part.reading.state.Covers literal)
    (second : ∀ literal ∈ part.reading.literal, part.reading.state.Covers literal) :
    (addMovement target index part).Sound := by
  obtain ⟨destination, source, place, origin, same⟩ | faulted :=
    State.Faulted.of_addMovement target index part
  · rw [same]
    refine sound.addStatement _
      ⟨destination_takesWord known place, source_takesWord named origin⟩ fun literal member => ?_
    rcases List.mem_append.1 member with origin | place
    · exact second literal (Option.mem_toList.1 origin)
    · exact first literal (Option.mem_toList.1 place)
  · exact sound.faulted faulted

/-! ## Reading statements -/

theorem readMovement_step {limit : Int} {s : State} (sound : s.Sound) {target : Token}
    {rest : List Token} (word : Isa.isLocationWord target.text = true)
    (known : ∀ token ∈ rest, token.Known) :
    (readMovement limit s target rest).1.Sound ∧
      (readMovement limit s target rest).2.rest <:+ rest := by
  have suffix := suffix_readLiteral limit s ⟨target, rest⟩
  have index := extends_readLiteral limit s ⟨target, rest⟩
  have afterIndex := sound.extends index.state
  generalize becomes : readMovement limit s target rest = next
  have reads := readsMovement limit s target rest
  rw [becomes] at reads
  cases reads with
  | unsigned what => exact ⟨afterIndex.faulted (.expected _ _ _), suffix⟩
  | @sourceless sign behind r what left found =>
    have source := suffix_readSource limit (readLiteral limit s ⟨target, rest⟩).state ⟨sign, behind⟩
    have read := extends_readSource limit (readLiteral limit s ⟨target, rest⟩).state ⟨sign, behind⟩
    rw [found] at source read
    rw [left] at suffix
    exact ⟨(afterIndex.extends read.state).faulted (.expected _ _ _),
      (source.trans (List.suffix_cons _ _)).trans suffix⟩
  | @whole sign behind part left equals found =>
    have source := suffix_readSource limit (readLiteral limit s ⟨target, rest⟩).state ⟨sign, behind⟩
    have read := extends_readSource limit (readLiteral limit s ⟨target, rest⟩).state ⟨sign, behind⟩
    rw [found] at source read
    rw [left] at suffix
    have named := named_readSource (fun token member =>
      known token (suffix.subset (List.mem_cons_of_mem _ member))) found
    refine ⟨sound_addMovement (afterIndex.extends read.state) word named ?_ read.covers,
      (source.trans (List.suffix_cons _ _)).trans suffix⟩
    exact fun literal member => (index.covers literal member).mono read.state

theorem State.Sound.addAction {s : State} (sound : s.Sound) (token : Token)
    (action : Option Isa.Action) : (s.addAction token action).Sound := by
  unfold State.addAction
  split
  · exact sound.addStatement _ trivial fun _ none => absurd none List.not_mem_nil
  · exact sound.faulted (.fault _ _ _)

/-- Reading the written form of a control action gives the action back. -/
theorem controlAction?_text (c : Isa.Control) :
    controlAction? (Isa.Action.control c).text = some (.control c) := by
  have name : String.ofList ((Isa.Action.control c).text.toList.drop 1) = c.name := by
    cases c <;> decide
  unfold controlAction?
  rw [name, Isa.Control.ofName?_name]
  rfl

/-- Reading the written form of a register action gives the action back. -/
theorem registerAction?_text (op : Isa.Operation) (r : Isa.Register) :
    registerAction? (Isa.Action.register op r).text = some (.register op r) := by
  have text : (Isa.Action.register op r).text.toList = [op.symbol, r.letter] :=
    String.toList_ofList
  unfold registerAction?
  rw [text]
  dsimp only
  rw [Isa.Operation.ofSymbol?_symbol, Isa.Register.ofLetter?_letter]

theorem extends_awaitStatement (s : State) (token : Token) :
    s.Extends (s.awaitStatement token) := by
  unfold State.awaitStatement
  dsimp only
  split
  · exact ⟨rfl, rfl, fun _ member => member⟩
  · exact ⟨rfl, rfl, fun _ member => member⟩

theorem extends_closeBlock (s : State) (token : Token) : s.Extends (s.closeBlock token) := by
  unfold State.closeBlock
  split
  · exact (State.Faulted.fault s _ _).extends
  · exact ⟨rfl, rfl, fun _ member => member⟩

/-- A letter that a condition may test is that of a target. -/
theorem ofLetter?_isSome {c : Char} (letter : Lexeme.isTarget c = true) :
    (Isa.Target.ofLetter? c).isSome = true := by
  unfold Lexeme.isTarget at letter
  simp only [Bool.or_eq_true, beq_iff_eq] at letter
  rcases letter with (((rfl | rfl) | rfl) | rfl) | rfl <;> decide

/-- A condition that is spelt as it should be has a target. -/
theorem targets_ne_nil {text : List Char} (spelt : Spelling.Condition text) :
    (Isa.Condition.ofMarks (text.drop 1)).targets ≠ [] := by
  cases spelt with
  | @mk marks letters _ some all =>
    obtain ⟨c, rest, rfl⟩ := List.exists_cons_of_ne_nil some
    obtain ⟨t, target⟩ := Option.isSome_iff_exists.1 (ofLetter?_isSome (all c List.mem_cons_self))
    have member : t ∈ (marks ++ c :: rest).filterMap Isa.Target.ofLetter? :=
      List.mem_filterMap.2 ⟨c, List.mem_append_right _ List.mem_cons_self, target⟩
    exact List.ne_nil_of_mem (List.mem_eraseDups.2 member)

/-- Reading a statement, a label or a block mark adds at most one statement, and a sound one. -/
theorem readStatement_step (limit : Int) {s : State} (sound : s.Sound) {token : Token}
    {rest : List Token} (first : token.Known) (known : ∀ other ∈ rest, other.Known) :
    (readStatement limit s token rest).1.Sound ∧
      (readStatement limit s token rest).2.rest <:+ rest := by
  have read := extends_readLiteralFrom limit s token rest
  have suffix := suffix_readLiteralFrom limit s token rest
  have after := sound.extends read.state
  have reads := readsStatement limit s token rest
  generalize readStatement limit s token rest = next at reads ⊢
  cases reads with
  | registerAction | controlAction => exact ⟨sound.addAction token _, List.suffix_refl _⟩
  | condition kind =>
    refine ⟨sound.addStatement _ (targets_ne_nil (first.condition kind)) ?_, List.suffix_refl _⟩
    exact fun _ none => absurd none List.not_mem_nil
  | label => exact ⟨sound.extends (extends_awaitStatement s token), List.suffix_refl _⟩
  | movement kind => exact readMovement_step sound (first.location kind) known
  | opening => exact ⟨sound.extends ⟨rfl, rfl, fun _ member => member⟩, List.suffix_refl _⟩
  | closing => exact ⟨sound.extends (extends_closeBlock s token), List.suffix_refl _⟩
  | @constant literal _ _ found =>
    refine ⟨after.addStatement _ trivial fun other member => ?_, suffix⟩
    rw [List.mem_singleton.1 member]
    exact read.covers literal found
  | unread => exact ⟨after, suffix⟩
  | unexpected => exact ⟨sound.faulted (.fault _ _ _), List.suffix_refl _⟩

/-- Reading statements adds sound ones. -/
theorem sound_readStatements (limit : Int) (s : State) (tokens : List Token) (sound : s.Sound)
    (known : ∀ token ∈ tokens, token.Known) : (readStatements limit s tokens).Sound := by
  fun_induction readStatements limit s tokens with
  | case1 => exact sound
  | case2 s token rest next ih =>
    have later : ∀ other ∈ rest, other.Known := fun other member =>
      known other (List.mem_cons_of_mem _ member)
    obtain ⟨sound, suffix⟩ :=
      readStatement_step limit sound (known token List.mem_cons_self) later
    exact ih sound fun other member => later other (suffix.subset member)

end Parser

/-- Every statement of a program carries its own index, can be encoded, and mentions only recorded
    references; every label names a statement. -/
structure Program.Sound (p : Program) : Prop where
  id : ∀ (i : Nat) (h : i < p.statements.size), p.statements[i].id = i
  complete : ∀ statement ∈ p.statements, statement.body.Complete
  mentions : ∀ statement ∈ p.statements, ∀ literal ∈ statement.body.literals,
    ∀ r ∈ literal.mentions, r ∈ p.references
  labels : ∀ entry ∈ p.labels, entry.2 < p.statements.size

/-- Whatever problems it finds, the parser makes a sound program of known tokens. -/
theorem sound_parseStatements (limit : Int) {tokens : List Token}
    (known : ∀ token ∈ tokens, token.Known) : (parseStatements limit tokens).1.Sound := by
  have read := Parser.sound_readStatements limit .initial tokens Parser.sound_initial known
  have sound := read.faulted (.atEnd _ tokens)
  refine ⟨sound.id, sound.complete, fun s member literal inside r mentioned => ?_, sound.labels⟩
  exact List.mem_reverse.2 (sound.covers s member literal inside r mentioned)

/-- A parsed program is sound. -/
theorem Program.Parsed.program_sound {limit : Int} {p : Program} (parsed : p.Parsed limit) :
    p.Sound := by
  obtain ⟨tokens, known, result⟩ := parsed
  obtain rfl : (parseStatements limit tokens).1 = p := congrArg Prod.fst result
  exact sound_parseStatements limit known

/-- Every statement of a parsed program carries its own index and can be encoded. -/
theorem Program.Parsed.sound {limit : Int} {p : Program} (parsed : p.Parsed limit) :
    (∀ (i : Nat) (h : i < p.statements.size), p.statements[i].id = i) ∧
      ∀ statement ∈ p.statements, statement.body.Complete :=
  ⟨parsed.program_sound.id, parsed.program_sound.complete⟩

end NineBit.Asm

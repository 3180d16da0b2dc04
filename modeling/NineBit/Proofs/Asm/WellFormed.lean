import NineBit.Proofs.Asm.Gathering
import NineBit.Proofs.Asm.Names
import NineBit.Proofs.Asm.Scoping

/-!
# Well-formed programs

The code generator takes a parsed program as it is. Whatever was wrong with its tokens, statements
carry their own indices, the table of labels is that of the statements' labels, locations and
literals of a movement go together, conditions have targets, arrays are no deeper than they may be,
and references are recorded and mean statements (`Program.WellFormed`). One statement, label or mark
adds a statement at most, and only one that is complete (`Parser.State.Gains`): what is wrong is
dropped as a whole. So everything that the parser has is in order wherever it comes to
(`Parser.Place.Reached.wellFormed`).
-/

namespace NineBit.Asm

/-- The literals of a statement in the order in which they are written: the operands, the
    destination's first, or the data. -/
def Statement.Body.written : Statement.Body → List Literal
  | .movement _ _ index value => index.toList ++ value.toList
  | .constant literal => [literal]
  | _ => []

namespace Parser

variable {s middle next : State} {found : List Reference}

/-! ## Adding statements -/

/-- A word of some tokens that names a location. -/
def NamesLocation (tokens : List Token) (word : String) : Prop :=
  ∃ token ∈ tokens, token.kind = .location ∧ token.text = word

/-- What a statement does, as it comes from some tokens, and its place if it is a single token. -/
inductive MadeFrom (tokens : List Token) : Span → Statement.Body → Prop where
  /-- The written names are in the tables. Where there is no word for the source, there is a
      literal. -/
  | movement {span : Span} {target word : String} {destination : Isa.Destination}
      {source : Isa.Source} {index value : Option Literal} (written : NamesLocation tokens target)
      (place : Isa.Destination.ofName? (locationName target index.isSome) = some destination)
      (given : NamesLocation tokens word ∨ word = "" ∧ value.isSome = true)
      (origin : Isa.Source.ofName? (locationName word value.isSome) = some source) :
      MadeFrom tokens span (.movement destination source index value)
  | condition {token : Token} (written : token ∈ tokens) (kind : token.kind = .condition) :
      MadeFrom tokens token.span (.condition (.ofMarks (token.text.toList.drop 1)))
  | action {token : Token} {x : Isa.Action} (written : token ∈ tokens)
      (kind : token.kind = .registerAction ∨ token.kind = .action) :
      MadeFrom tokens token.span (.action x)
  | constant {span : Span} (literal : Literal) : MadeFrom tokens span (.constant literal)

theorem MadeFrom.mono {tokens others : List Token} {span : Span} {body : Statement.Body}
    (made : MadeFrom tokens span body) (among : tokens ⊆ others) : MadeFrom others span body := by
  have names {word : String} : NamesLocation tokens word → NamesLocation others word := by
    rintro ⟨token, member, kind, text⟩
    exact ⟨token, among member, kind, text⟩
  cases made with
  | movement written place given origin =>
    exact .movement (names written) place (given.imp_left names) origin
  | condition written kind => exact .condition (among written) kind
  | action written kind => exact .action (among written) kind
  | constant literal => exact .constant literal

/-- What one statement, label or mark adds: a statement at most, made from the tokens, whose
    references have been collected and whose arrays are not nested too deep. -/
inductive State.Gains (limit : Nat) (tokens : List Token) (s : State) : State → Prop where
  | nothing {next : State} (collects : s.Collects next []) : Gains limit tokens s next
  | statement {middle : State} {span : Span} {body : Statement.Body}
      (made : MadeFrom tokens span body)
      (shallow : ∀ literal ∈ body.written, literal.depth ≤ limit)
      (collects : s.Collects middle (Literal.mentionsOf body.written)) :
      Gains limit tokens s (middle.addStatement span body)

section
variable {limit : Int} {token target : Token} {tokens rest : List Token}

theorem gains_action (written : token ∈ tokens)
    (kind : token.kind = .registerAction ∨ token.kind = .action) (x : Option Isa.Action) :
    s.Gains limit.toNat tokens (s.addAction token x) := by
  cases x with
  | none => exact .nothing (.of_faulted (.fault s _ _))
  | some x => exact .statement (.action written kind) nofun (.refl s)

/-- The word of a movement's source is one of the tokens, or there is only a literal. -/
theorem given_readSource {c : Cursor} {part : SourcePart} {r : Reading}
    (found : readSource limit s c = (some part, r)) :
    NamesLocation c.rest part.word ∨ part.word = "" ∧ part.reading.literal.isSome = true := by
  unfold readSource at found
  split at found
  · cases found
  · rename_i token rest same
    dsimp only at found
    split at found
    · rename_i kind
      cases found
      exact .inl ⟨token, by rw [same]; exact List.mem_cons_self, kind, rfl⟩
    · split at found
      · rename_i literal
        cases found
        exact .inr ⟨rfl, literal⟩
      · cases found

theorem gains_addMovement {index : Option Literal} {part : SourcePart}
    (written : NamesLocation tokens target.text)
    (given : NamesLocation tokens part.word ∨
      part.word = "" ∧ part.reading.literal.isSome = true)
    (shallow : ∀ literal ∈ index.toList ++ part.reading.literal.toList,
      literal.depth ≤ limit.toNat)
    (collects : s.Collects part.reading.state
      (Literal.mentionsOf (index.toList ++ part.reading.literal.toList))) :
    s.Gains limit.toNat tokens (addMovement target index part) := by
  obtain ⟨destination, source, place, origin, same⟩ | faulted :=
    State.Faulted.of_addMovement target index part
  · rw [same]
    exact .statement (.movement written place given origin) shallow collects
  · exact .nothing ((collects.forget (List.nil_sublist _)).faulted faulted)

theorem gains_readMovement (kind : target.kind = .location) :
    s.Gains limit.toNat (target :: rest) (readMovement limit s target rest).1 := by
  have index := collects_readLiteral limit s ⟨target, rest⟩
  have suffix := suffix_readLiteral limit s ⟨target, rest⟩
  -- What fails behind the index has recorded its references, which no statement needs.
  have fails {next : State} {found : List Reference} (collects : s.Collects next found)
      (what : String) (c : Cursor) :
      s.Gains limit.toNat (target :: rest) (next.expected what c) :=
    .nothing ((collects.forget (List.nil_sublist _)).faulted (.expected next what c))
  generalize becomes : readMovement limit s target rest = next
  have reads := readsMovement limit s target rest
  rw [becomes] at reads
  cases reads with
  | unsigned what => exact fails index.collects _ _
  | @sourceless sign behind r what left found =>
    have source := collects_readSource limit (readLiteral limit s ⟨target, rest⟩).state
      ⟨sign, behind⟩
    rw [found] at source
    exact fails (index.collects.trans source.collects) _ _
  | @whole sign behind part left equals found =>
    have source := collects_readSource limit (readLiteral limit s ⟨target, rest⟩).state
      ⟨sign, behind⟩
    rw [found] at source
    have both := index.collects.trans source.collects
    rw [← Literal.mentionsOf_append] at both
    rw [left] at suffix
    have among : behind ⊆ target :: rest := fun token member =>
      List.mem_cons_of_mem _ (suffix.subset (List.mem_cons_of_mem _ member))
    refine gains_addMovement ⟨target, List.mem_cons_self, kind, rfl⟩ ?_ ?_ both
    · refine (given_readSource found).imp_left ?_
      rintro ⟨token, member, kind, text⟩
      exact ⟨token, among member, kind, text⟩
    · intro literal member
      rcases List.mem_append.1 member with first | second
      · exact index.shallow literal (Option.mem_toList.1 first)
      · exact source.shallow literal (Option.mem_toList.1 second)

theorem gains_readStatement (limit : Int) (s : State) (token : Token) (rest : List Token) :
    s.Gains limit.toNat (token :: rest) (readStatement limit s token rest).1 := by
  have read := collects_readLiteralFrom limit s token rest
  have reads := readsStatement limit s token rest
  generalize readStatement limit s token rest = next at reads ⊢
  cases reads with
  | registerAction kind => exact gains_action List.mem_cons_self (.inl kind) _
  | controlAction kind => exact gains_action List.mem_cons_self (.inr kind) _
  | condition kind =>
    exact .statement (.condition List.mem_cons_self kind) nofun (.refl s)
  | label =>
    refine .nothing ⟨?_, [], ?_, .slnil⟩
    all_goals
      unfold State.awaitStatement
      dsimp only
      split <;> rfl
  | movement kind => exact gains_readMovement kind
  | opening => exact .nothing ⟨rfl, [], rfl, .slnil⟩
  | closing =>
    unfold State.closeBlock
    split
    · exact .nothing (.of_faulted (.fault s _ _))
    · exact .nothing ⟨rfl, [], rfl, .slnil⟩
  | @constant literal _ _ found =>
    have collects := read.collects
    rw [found] at collects
    refine .statement (.constant literal) (fun other member => ?_) collects
    rw [List.mem_singleton.1 member]
    exact read.shallow literal found
  | unread => exact .nothing (read.collects.forget (List.nil_sublist _))
  | unexpected => exact .nothing (.of_faulted (.fault s _ _))

end

/-! ## All statements -/

/-- Every statement is made from the tokens, its arrays are nested no deeper than they may be, and
    each reference in a statement has its own place among the recorded ones. -/
structure State.WellFormed (limit : Nat) (tokens : List Token) (s : State) : Prop where
  made : ∀ st ∈ s.statements, MadeFrom tokens st.span st.body
  shallow : ∀ st ∈ s.statements, ∀ literal ∈ st.body.written, literal.depth ≤ limit
  mentions : (Literal.mentionsOf
    (s.statements.toList.flatMap fun st => st.body.written)).reverse.Sublist s.references

theorem addStatement_pushes (s : State) (span : Span) (body : Statement.Body) :
    ∃ label, (s.addStatement span body).statements =
        s.statements.push ⟨s.statements.size, span, label, body⟩ ∧
      (s.addStatement span body).references = s.references := by
  unfold State.addStatement
  dsimp only
  split
  · exact ⟨none, rfl, rfl⟩
  · split
    · exact ⟨none, rfl, rfl⟩
    · exact ⟨some _, rfl, rfl⟩

namespace State.WellFormed

variable {limit : Nat} {tokens : List Token}

theorem collects (formed : s.WellFormed limit tokens) (collects : s.Collects next found) :
    next.WellFormed limit tokens := by
  obtain ⟨new, same, -⟩ := collects.references
  refine ⟨?_, ?_, ?_⟩
  · rw [collects.statements]
    exact formed.made
  · rw [collects.statements]
    exact formed.shallow
  · rw [collects.statements, same]
    exact formed.mentions.trans (List.sublist_append_right _ _)

theorem gains (formed : s.WellFormed limit tokens) (gains : s.Gains limit tokens next) :
    next.WellFormed limit tokens := by
  cases gains with
  | nothing collects => exact formed.collects collects
  | @statement middle span body made shallow collects =>
    obtain ⟨label, pushed, references⟩ := addStatement_pushes middle span body
    obtain ⟨new, same, inside⟩ := collects.references
    rw [collects.statements] at pushed
    refine ⟨?_, ?_, ?_⟩
    · rw [pushed]
      intro st member
      rcases Array.mem_push.1 member with old | rfl
      · exact formed.made st old
      · exact made
    · rw [pushed]
      intro st member
      rcases Array.mem_push.1 member with old | rfl
      · exact formed.shallow st old
      · exact shallow
    · rw [references, same, pushed, Array.toList_push, List.flatMap_append, List.flatMap_singleton,
        Literal.mentionsOf_append, List.reverse_append]
      exact inside.append formed.mentions

end State.WellFormed

theorem wellFormed_initial (limit : Nat) (tokens : List Token) :
    State.initial.WellFormed limit tokens where
  made _ member := absurd member (Array.not_mem_empty _)
  shallow _ member := absurd member (Array.not_mem_empty _)
  mentions := .slnil

theorem State.Gains.mono {limit : Nat} {tokens others : List Token}
    (gains : s.Gains limit tokens next) (among : tokens ⊆ others) : s.Gains limit others next := by
  cases gains with
  | nothing collects => exact .nothing collects
  | statement made shallow collects => exact .statement (made.mono among) shallow collects

/-- Wherever the parser comes to, what it has is well-formed. -/
theorem Place.Reached.wellFormed {limit : Int} {tokens : List Token} {x : Place}
    (reached : Reached limit tokens x) : x.state.WellFormed limit.toNat tokens := by
  induction reached with
  | refl => exact wellFormed_initial _ tokens
  | tail here next ih =>
    have among := (Reached.suffix here).subset
    cases next with
    | read s marks token rest =>
      exact ih.gains ((gains_readStatement limit s token rest).mono among)

/-- What the parser has in the end is well-formed. -/
theorem wellFormed_parsed (limit : Int) (tokens : List Token) :
    ((readStatements limit .initial tokens).atEnd tokens).WellFormed limit.toNat tokens := by
  obtain ⟨last, ends⟩ := Place.reaches_end limit .initial tokens []
  have formed := Place.Reached.wellFormed ends
  exact formed.collects (.of_faulted (.atEnd _ tokens))

/-! ## Names and targets -/

theorem namesIndexed_locationName {word : String} (bare : Isa.namesIndexed word = false)
    (indexed : Bool) : Isa.namesIndexed (locationName word indexed) = indexed := by
  cases indexed with
  | false => exact bare
  | true =>
    unfold Isa.namesIndexed locationName
    rw [if_pos rfl, String.toList_push, List.getLast?_concat]
    exact beq_self_eq_true _

theorem nodup_eraseDups {α : Type} [BEq α] [LawfulBEq α] (list : List α) :
    list.eraseDups.Nodup := by
  match list with
  | [] => exact .nil
  | first :: rest =>
    rw [List.eraseDups_cons, List.nodup_cons]
    exact ⟨by simp, nodup_eraseDups _⟩
  termination_by list.length
  decreasing_by exact Nat.lt_succ_of_le (List.length_filter_le _ _)

theorem eraseDups_map {α β : Type} [BEq α] [LawfulBEq α] [BEq β] [LawfulBEq β] {f : α → β}
    (injective : ∀ a b, f a = f b → a = b) (list : List α) :
    (list.map f).eraseDups = list.eraseDups.map f := by
  match list with
  | [] => rfl
  | first :: rest =>
    have same : (fun b => !b == f first) ∘ f = fun b => !b == first := by
      funext b
      rw [Function.comp_apply, Bool.not_eq_eq_eq_not, Bool.not_not, Bool.eq_iff_iff, beq_iff_eq,
        beq_iff_eq]
      exact ⟨injective b first, congrArg f⟩
    rw [List.map_cons, List.eraseDups_cons, List.eraseDups_cons, List.map_cons, List.filter_map,
      same, eraseDups_map injective]
  termination_by list.length
  decreasing_by exact Nat.lt_succ_of_le (List.length_filter_le _ _)

/-- The letters that a condition is written with, each once. -/
def lettersOf (text : List Char) : List Char :=
  ((text.drop 1).filter fun c => c != '!' && c != '|').eraseDups

theorem letter_injective {t u : Isa.Target} (same : t.letter = u.letter) : t = u := by
  have found := congrArg Isa.Target.ofLetter? same
  rw [Isa.Target.ofLetter?_letter, Isa.Target.ofLetter?_letter] at found
  exact Option.some.inj found

/-- Letters of targets are read as these targets. -/
theorem map_letter_targets {letters : List Char}
    (all : ∀ c ∈ letters, Lexeme.isTarget c = true) :
    (letters.filterMap Isa.Target.ofLetter?).map Isa.Target.letter = letters := by
  induction letters with
  | nil => rfl
  | cons c rest ih =>
    have known := ofLetter?_isSome (all c List.mem_cons_self)
    obtain ⟨t, target⟩ := Option.isSome_iff_exists.1 known
    have same := List.find?_some (p := fun t : Isa.Target => t.letter == c) target
    rw [List.filterMap_cons_some target, List.map_cons, beq_iff_eq.1 same]
    exact congrArg _ (ih fun other member => all other (List.mem_cons_of_mem _ member))

/-- No letter of a condition that is spelt as it should be is left out. -/
theorem map_letter_ofMarks {text : List Char} (spelt : Spelling.Condition text) :
    (Isa.Condition.ofMarks (text.drop 1)).targets.map Isa.Target.letter = lettersOf text := by
  cases spelt with
  | @mk marks letters marked some all =>
    -- `spelt` splits the text into marks, which name no target, and letters, which all do.
    have noTarget : ∀ marks ∈ Spelling.conditionMarks,
        marks.filterMap Isa.Target.ofLetter? = [] ∧
          marks.filter (fun c => c != '!' && c != '|') = [] := by
      decide
    obtain ⟨nothing, dropped⟩ := noTarget marks marked
    have targets := map_letter_targets all
    have kept : letters.filter (fun c => c != '!' && c != '|') = letters := by
      apply List.filter_eq_self.2
      intro c member
      obtain ⟨t, -, rfl⟩ := List.mem_map.1 (targets ▸ member)
      cases t <;> decide
    unfold lettersOf Isa.Condition.ofMarks
    rw [List.drop_succ_cons, List.drop_zero, List.filterMap_append, List.filter_append, nothing,
      dropped, List.nil_append, List.nil_append, kept,
      ← eraseDups_map fun _ _ => letter_injective, targets]

end Parser

/-! ## Well-formed programs -/

/-- What holds of a program parsed from some tokens, whatever is wrong with them. -/
structure Program.WellFormed (limit : Int) (tokens : List Token) (p : Program) : Prop where
  /-- Every statement carries its own index. -/
  indexed : ∀ (id : Nat) (st : Statement), p.statements[id]? = some st → st.id = id
  /-- A key leads to a statement exactly if it is the key of the statement's label. -/
  labelled : ∀ (key : String) (id : Nat), p.labels.keys.lookup key = some id ↔
    ∃ st, p.statements[id]? = some st ∧ st.label.map Label.key = some key
  /-- No key is there twice. -/
  distinct : (p.labels.keys.map Prod.fst).Nodup
  /-- No statement has two labels. -/
  single : (p.labels.keys.map Prod.snd).Nodup
  /-- The destination of a movement is in the table under a word of the tokens, with the mark of an
      index if a literal follows it. Its name ends in the mark just when there is that literal, if
      the word has no mark by itself. -/
  destinations : ∀ st ∈ p.statements, ∀ destination source index value,
    st.body = .movement destination source index value →
      ∃ word, Parser.NamesLocation tokens word ∧
        Isa.Destination.ofName? (Parser.locationName word index.isSome) = some destination ∧
        (Isa.namesIndexed word = false → Isa.namesIndexed destination.name = index.isSome)
  /-- So is the source, which may also be a literal without a word. -/
  sources : ∀ st ∈ p.statements, ∀ destination source index value,
    st.body = .movement destination source index value →
      ∃ word, (Parser.NamesLocation tokens word ∨ word = "" ∧ value.isSome = true) ∧
        Isa.Source.ofName? (Parser.locationName word value.isSome) = some source ∧
        (Isa.namesIndexed word = false → Isa.namesIndexed source.name = value.isSome)
  /-- The targets of a condition differ. If its token is spelt as the lexer spells it, there is one,
      and they are the letters of the token. -/
  conditions : ∀ st ∈ p.statements, ∀ c, st.body = .condition c → c.targets.Nodup ∧
    ∃ token ∈ tokens, token.kind = .condition ∧ token.span = st.span ∧
      (Spelling.Condition token.text.toList → c.targets ≠ [] ∧
        c.targets.map Isa.Target.letter = Parser.lettersOf token.text.toList)
  /-- Arrays are nested no deeper than they may be. -/
  shallow : ∀ st ∈ p.statements, ∀ literal ∈ st.body.written, literal.depth ≤ limit.toNat
  /-- Each reference in a statement has its own place among the references, in the order of the
      text. -/
  mentioned : (Literal.mentionsOf (p.statements.toList.flatMap fun st => st.body.written)).Sublist
    p.references
  /-- Every reference is searched for. -/
  searched : p.resolution.1.map Search.reference = p.references
  /-- What a search has found is a statement of the program, and what the layout goes by. -/
  resolved : ∀ x ∈ p.resolution.1, ∀ id, x.state = .resolved id →
    x.reference.target? p.labels = some id ∧ ∃ st, p.statements[id]? = some st ∧ st.id = id

/-- A movement's names end in the mark of an index just when there is a literal, and a condition has
    a target. -/
def Statement.Body.Spelt : Statement.Body → Prop
  | .movement destination source index value =>
    Isa.namesIndexed destination.name = index.isSome ∧ Isa.namesIndexed source.name = value.isSome
  | .condition c => c.targets ≠ []
  | _ => True

section
variable {limit : Int} {tokens : List Token}

/-- The labels of the statements are those of the table. -/
theorem lookup_keys_iff (limit : Int) (tokens : List Token) (key : String) (id : Nat) :
    (parseStatements limit tokens).1.labels.keys.lookup key = some id ↔
      ∃ st, (parseStatements limit tokens).1.statements[id]? = some st ∧
        st.label.map Label.key = some key := by
  have recorded := recorded_parseStatements limit tokens
  constructor
  · intro found
    obtain ⟨before, after, same, -⟩ := List.lookup_eq_some_iff.1 found
    have member : (key, id) ∈ (parseStatements limit tokens).1.labels.keys := by
      rw [same]
      exact List.mem_append_right _ List.mem_cons_self
    obtain ⟨⟨l, id⟩, entry, pair⟩ := List.mem_map.1 member
    cases pair
    obtain ⟨st, at_, named⟩ := ((Parser.Place.Recorded.parsed limit tokens).labels l id).1 entry
    exact ⟨st, at_, by rw [named, Option.map_some]⟩
  · rintro ⟨st, at_, named⟩
    obtain ⟨l, label, rfl⟩ := Option.map_eq_some_iff.1 named
    rw [LabelTable.lookup_keys]
    exact (recorded.named l id).2 ⟨st, at_, label⟩

/-- A label is in the table once, and so is a statement. -/
theorem nodup_keys (limit : Int) (tokens : List Token) :
    ((parseStatements limit tokens).1.labels.keys.map Prod.fst).Nodup ∧
      ((parseStatements limit tokens).1.labels.keys.map Prod.snd).Nodup := by
  have places := Parser.Place.Recorded.parsed limit tokens
  have keys : (parseStatements limit tokens).1.labels.keys.map Prod.fst =
      ((parseStatements limit tokens).1.labels.map Prod.fst).map Label.key := by
    unfold LabelTable.keys
    rw [List.map_map, List.map_map]
    rfl
  have ids : (parseStatements limit tokens).1.labels.keys.map Prod.snd =
      (parseStatements limit tokens).1.labels.map Prod.snd := by
    unfold LabelTable.keys
    rw [List.map_map]
    rfl
  rw [keys, ids]
  constructor
  · exact places.distinct.map fun _ _ => Label.key_injective
  · refine places.distinct.of_map.map_on fun first member second member' same => ?_
    obtain ⟨st, at_, label⟩ := (places.labels first.1 first.2).1 member
    obtain ⟨st', at', label'⟩ := (places.labels second.1 second.2).1 member'
    rw [same, at'] at at_
    cases at_
    rw [label] at label'
    exact Prod.ext (Option.some.inj label') same

/-- A bare word of a location has the mark of an index just if a literal follows. -/
theorem Parser.MadeFrom.movement_names {span : Span} {destination : Isa.Destination}
    {source : Isa.Source} {index value : Option Literal}
    (made : Parser.MadeFrom tokens span (.movement destination source index value)) :
    (∃ word, Parser.NamesLocation tokens word ∧
      Isa.Destination.ofName? (Parser.locationName word index.isSome) = some destination ∧
      (Isa.namesIndexed word = false → Isa.namesIndexed destination.name = index.isSome)) ∧
    ∃ word, (Parser.NamesLocation tokens word ∨ word = "" ∧ value.isSome = true) ∧
      Isa.Source.ofName? (Parser.locationName word value.isSome) = some source ∧
      (Isa.namesIndexed word = false → Isa.namesIndexed source.name = value.isSome) := by
  cases made with
  | @movement _ target word _ _ _ _ written place given origin =>
    refine ⟨⟨target, written, place, fun bare => ?_⟩, word, given, origin, fun bare => ?_⟩
    · rw [Parser.name_of_destination place]
      exact Parser.namesIndexed_locationName bare _
    · rw [Parser.name_of_source origin]
      exact Parser.namesIndexed_locationName bare _

theorem Parser.MadeFrom.condition_targets {span : Span} {c : Isa.Condition}
    (made : Parser.MadeFrom tokens span (.condition c)) : c.targets.Nodup ∧
      ∃ token ∈ tokens, token.kind = .condition ∧ token.span = span ∧
        (Spelling.Condition token.text.toList → c.targets ≠ [] ∧
          c.targets.map Isa.Target.letter = Parser.lettersOf token.text.toList) := by
  cases made with
  | @condition token written kind =>
    refine ⟨Parser.nodup_eraseDups _, token, written, kind, rfl, fun spelt => ?_⟩
    exact ⟨Parser.targets_ne_nil spelt, Parser.map_letter_ofMarks spelt⟩

theorem wellFormed_parseStatements (limit : Int) (tokens : List Token) :
    (parseStatements limit tokens).1.WellFormed limit tokens := by
  have formed := Parser.wellFormed_parsed limit tokens
  have recorded := recorded_parseStatements limit tokens
  have scope := recorded.scope
  obtain ⟨keys, ids⟩ := nodup_keys limit tokens
  have made (st : Statement) (member : st ∈ (parseStatements limit tokens).1.statements) :
      Parser.MadeFrom tokens st.span st.body := formed.made st member
  refine ⟨recorded.indexed, lookup_keys_iff limit tokens, keys, ids, ?_, ?_, ?_, formed.shallow, ?_,
    scope.searched, ?_⟩
  · intro st member destination source index value body
    exact (body ▸ made st member).movement_names.1
  · intro st member destination source index value body
    exact (body ▸ made st member).movement_names.2
  · intro st member c body
    exact (body ▸ made st member).condition_targets
  · have mentions := formed.mentions.reverse
    rw [List.reverse_reverse] at mentions
    exact mentions
  · intro x member id state
    have settled := scope.settled x member
    unfold Search.Settled at settled
    rw [state] at settled
    obtain ⟨-, st, at_, same, -⟩ := settled
    have target := scope.targets x member
    rw [state] at target
    exact ⟨target, st, at_, same⟩

/-- A word that names a location has no mark by itself. -/
theorem namesIndexed_of_isLocationWord {word : String} (known : Isa.isLocationWord word = true) :
    Isa.namesIndexed word = false := by
  have all : ∀ word ∈ Isa.locationWords, Isa.namesIndexed word = false := by
    decide +kernel
  exact all word (List.contains_iff_mem.1 known)

/-- Statements of known tokens are spelt as they should be. -/
theorem Program.WellFormed.spelt {p : Program} (formed : p.WellFormed limit tokens)
    (known : ∀ token ∈ tokens, token.Known) : ∀ st ∈ p.statements, st.body.Spelt := by
  have bare (word : String) (names : Parser.NamesLocation tokens word) :
      Isa.namesIndexed word = false := by
    obtain ⟨token, member, kind, rfl⟩ := names
    exact namesIndexed_of_isLocationWord ((known token member).location kind)
  intro st member
  cases body : st.body with
  | movement destination source index value =>
    obtain ⟨word, names, -, place⟩ := formed.destinations st member _ _ _ _ body
    obtain ⟨word', given, -, origin⟩ := formed.sources st member _ _ _ _ body
    refine ⟨place (bare word names), origin ?_⟩
    rcases given with names | ⟨rfl, -⟩
    · exact bare word' names
    · decide +kernel
  | condition c =>
    obtain ⟨-, token, written, kind, -, spelt⟩ := formed.conditions st member c body
    exact (spelt ((known token written).condition kind)).1
  | action x => trivial
  | constant literal => trivial

theorem known_expanded (source : Source) : ∀ token ∈ Assembly.expanded source, token.Known := by
  obtain ⟨tokens, macros⟩ := known_lex source
  exact fun token member => (known_expand macros tokens token member).1

end

/-- Every program that the parser gives is well-formed, whatever the problems with its tokens, as
    long as there are not more of them than are wanted. If the tokens are spelt as they should be,
    and those of a source text are, a movement has a literal for each mark of an index and no other,
    and each condition has a target. -/
theorem parse_wellFormed {limit maxErrors : Int} {tokens : List Token} {log last : Log}
    {p : Program} (unreached : (parse limit tokens).run maxErrors log = (some p, last)) :
    p.WellFormed limit tokens ∧
      ((∀ token ∈ tokens, token.Known) → ∀ st ∈ p.statements, st.body.Spelt) ∧
        ∀ source, tokens = Assembly.expanded source → ∀ token ∈ tokens, token.Known := by
  have value := (Report.run_eq_some unreached).1
  have program : (parseStatements limit tokens).1 = p := (value_parse limit tokens).symm.trans value
  have formed : p.WellFormed limit tokens := program ▸ wellFormed_parseStatements limit tokens
  refine ⟨formed, formed.spelt, ?_⟩
  rintro source rfl
  exact known_expanded source

/-- Arrays that are too deep or not closed, two labels in a row, a label that is there already, a
    name that is no destination and a block that is not closed leave no half statement behind, and
    what is well-formed between them stays. -/
theorem parse_wellFormed_recovering : ∃ p last,
    (parse 2 (Assembly.expanded ⟨"faulty",
        "x: y: [[[1] :x] \"s\"] ~1 x: a = :y x: sum = b mem :x = b ?aZa [1 #push pc = :z"⟩)).run
        100 .empty = (some p, last) ∧
      p.WellFormed 2 (Assembly.expanded ⟨"faulty",
        "x: y: [[[1] :x] \"s\"] ~1 x: a = :y x: sum = b mem :x = b ?aZa [1 #push pc = :z"⟩) ∧
      (∀ st ∈ p.statements, st.body.Spelt) ∧ last.problems.size = 9 ∧
      p.statements.map (fun st => (st.id, st.label.map Label.key)) =
        #[(0, some "0!y"), (1, some "0!x"), (2, none), (3, none), (4, none)] := by
  have outcome : Prod.map
      (Option.map fun p : Program => p.statements.map fun st => (st.id, st.label.map Label.key))
      (fun log : Log => log.problems.size)
      ((parse 2 (Assembly.expanded ⟨"faulty",
        "x: y: [[[1] :x] \"s\"] ~1 x: a = :y x: sum = b mem :x = b ?aZa [1 #push pc = :z"⟩)).run
        100 .empty) =
      (some #[(0, some "0!y"), (1, some "0!x"), (2, none), (3, none), (4, none)], 9) := by
    decide +kernel
  obtain ⟨statements, problems⟩ := Prod.mk.inj outcome
  obtain ⟨p, parsed, ends⟩ := Option.map_eq_some_iff.1 statements
  obtain ⟨formed, spelt, known⟩ := parse_wellFormed (Prod.ext parsed rfl)
  exact ⟨p, _, Prod.ext parsed rfl, formed, spelt (known _ rfl), problems, ends⟩

end NineBit.Asm

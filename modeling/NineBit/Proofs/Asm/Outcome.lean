import NineBit.Proofs.Asm.Demands
import NineBit.Proofs.Asm.Linked
import NineBit.Proofs.Asm.Places
import NineBit.Proofs.Asm.Resolution

/-!
# How an assembly ends

Whatever the source text, an assembly ends with an image and no problem, or with problems and no
image (`Assembly.Ends`); no text makes a stage fail in another way. Each stage hands the next one
what that relies on (`Assembly.Stages`): tokens as their kinds demand, then plain ones, then
statements that can be encoded and whose references are recorded. A program without problems has
only references that mean something, and such a program can be laid out (`layout_ok`): the linker
meets no operand without a word, no reference without a target and no code without an address.

On a host an assembly ends as it does anywhere, as long as the host meets its demands
(`Assembly.EndsOn`). Nothing breaks it but a lack of nesting, of a length or of room for what the
text asks for, or a numeral with too many digits, and a text can ask for a length that no host has
(`Assembly.onHost_long`).
-/

namespace NineBit

/-- A run without a value has found as many problems as were wanted. -/
theorem Report.run_eq_none {α : Type} {limit : Int} {r : Report α} : ∀ {log last : Log},
    r.run limit log = (none, last) → limit ≤ last.problems.size := by
  induction r with
  | done value => exact fun none => nomatch none
  | enter entry next ih =>
    intro log last ran
    unfold run at ran
    dsimp only at ran
    split at ran
    · rename_i stops
      cases ran
      cases entry with
      | problem d => exact of_decide_eq_true stops
      | _ => exact absurd stops Bool.false_ne_true
    · exact ih () ran

namespace Asm

/-! ## References -/

/-- Every reference of a program means a statement of it. -/
def Program.Resolved (p : Program) : Prop :=
  ∀ r ∈ p.references, ∃ id, r.target? p.labels = some id ∧ id < p.statements.size

/-- A program with no reference that is reported, each written in a block. -/
theorem Program.Sound.resolved {p : Program} (sound : p.Sound) (none : p.resolution.2 = [])
    (inside : ∀ r ∈ p.references, r.block ≠ []) : p.Resolved := by
  intro r member
  obtain ⟨id, target⟩ := p.target?_of_resolution none member (inside r member)
  refine ⟨id, target, ?_⟩
  obtain ⟨⟨block, _⟩, meant, rfl⟩ := Option.map_eq_some_iff.1 target
  obtain ⟨path, -, here⟩ := List.exists_of_findSome?_eq_some meant
  obtain ⟨other, looked, same⟩ := Option.map_eq_some_iff.1 here
  cases same
  obtain ⟨before, after, labels, -⟩ := List.lookup_eq_some_iff.1 looked
  exact sound.labels (⟨block, r.name⟩, _) (by rw [labels]; simp)

theorem resolution_of_problems {limit : Int} {tokens : List Token}
    (none : (parse limit tokens).problems = []) :
    (parse limit tokens).value.resolution.2 = [] := by
  rw [problems_parse, List.append_eq_nil_iff] at none
  rw [value_parse]
  exact none.2

/-! ## Layout -/

namespace Layout.Laid

section
variable {bits : Nat} {p : Program} {d : Draft} {pieces : List Piece} {filled queue : List Gap}
  {gap : Gap} {literal : Literal}

/-- Only operands that are no numbers, and references in data, are linked. -/
theorem number_not_linked {value : Nat} {span : Span} :
    Slot.linked (.number value span) ∉ p.image bits pieces := by
  intro member
  rcases List.mem_append.1 member with code | data
  · obtain ⟨s, -, inside⟩ := List.mem_flatMap.1 code
    unfold Statement.slots at inside
    split at inside
    · rcases List.mem_cons.1 inside with first | later
      · cases first
      · obtain ⟨operand, -, same⟩ := List.mem_map.1 later
        cases operand <;> cases same
    · exact absurd inside List.not_mem_nil
  · obtain ⟨piece, -, inside⟩ := List.mem_flatMap.1 data
    obtain ⟨r, -, same⟩ := Literal.linked_mem_slots.1 inside
    cases same

/-- An operand of the code is a literal of one of the statements. -/
theorem operand_mem_literals {s : Statement} (executable : s ∈ p.executable)
    (operand : literal ∈ s.operands) : ∃ s ∈ p.statements, literal ∈ s.body.literals := by
  refine ⟨s, Array.mem_toList_iff.1 (List.mem_filter.1 executable).1, ?_⟩
  obtain ⟨id, span, label, body⟩ := s
  cases body with
  | movement destination source destinationLiteral sourceLiteral => exact operand
  | _ => exact absurd operand List.not_mem_nil

/-- A string or an array that is linked is an operand of the code. -/
theorem inline_mem_literals (inline : literal.isInline = true)
    (member : Slot.linked literal ∈ p.image bits pieces) :
    ∃ s ∈ p.statements, literal ∈ s.body.literals := by
  rcases List.mem_append.1 member with code | data
  · obtain ⟨s, executable, operand⟩ := operand_of_linked_mem code
    exact operand_mem_literals executable operand
  · obtain ⟨piece, -, inside⟩ := List.mem_flatMap.1 data
    obtain ⟨r, -, same⟩ := Literal.linked_mem_slots.1 inside
    rw [same] at inline
    cases inline

/-- What is put down as data is a literal of one of the statements. -/
theorem piece_mem_literals (laid : Laid bits p d pieces filled queue) {piece : Piece}
    (member : piece ∈ pieces) : ∃ s ∈ p.statements, piece.literal ∈ s.body.literals := by
  obtain ⟨owner, address, literal⟩ := piece
  cases owner with
  | operand slot =>
    obtain ⟨done, inline⟩ := laid.operand slot address literal member
    have found := laid.gap_slot (List.mem_append_left _ done)
    exact inline_mem_literals inline (List.mem_of_getElem? found)
  | constant id =>
    have data := (laid.constant id address literal member).1
    unfold Program.data? at data
    obtain ⟨s, inside, constant⟩ := Option.bind_eq_some_iff.1 data
    refine ⟨s, Array.mem_of_getElem? inside, ?_⟩
    split at constant
    · rename_i same
      cases constant
      rw [same]
      exact List.mem_cons_self
    · cases constant

/-- Every reference that is to be linked has been recorded. -/
theorem reference_recorded (sound : p.Sound) (laid : Laid bits p d pieces filled queue)
    {r : Reference} (member : Slot.linked (.reference r) ∈ p.image bits pieces) :
    r ∈ p.references := by
  rcases List.mem_append.1 member with code | data
  · obtain ⟨s, executable, operand⟩ := operand_of_linked_mem code
    obtain ⟨s, inside, literal⟩ := operand_mem_literals executable operand
    exact sound.mentions s inside _ literal r (List.mem_singleton.2 rfl)
  · obtain ⟨piece, inside, slot⟩ := List.mem_flatMap.1 data
    obtain ⟨other, mentioned, same⟩ := Literal.linked_mem_slots.1 slot
    cases same
    obtain ⟨s, statement, literal⟩ := laid.piece_mem_literals inside
    exact sound.mentions s statement _ literal r mentioned

/-- All code has an address. -/
theorem executable_addressed (sound : p.Sound) (laid : Laid bits p d pieces filled queue)
    {s : Statement} (executable : s ∈ p.executable) :
    ∃ address, d.addressOf? s.id = some address := by
  obtain ⟨before, after, same⟩ := List.append_of_mem executable
  have placed := mem_placesFrom bits before s after 0
  rw [← same] at placed
  have member := List.mem_append_left (pieces.filterMap placement?) placed
  rw [← laid.placements] at member
  exact ⟨_, (laid.addressOf?_eq_some sound.id).2 member⟩

/-- Some word fills the first gap that is queued. -/
theorem resolve_ok (sound : p.Sound) (resolved : p.Resolved)
    (laid : Laid bits p d pieces filled (gap :: queue)) :
    ∃ result, resolve bits p d gap.literal = .ok result := by
  have member : Slot.linked gap.literal ∈ p.image bits pieces :=
    List.mem_of_getElem? (laid.gap_slot (List.mem_append_right _ List.mem_cons_self))
  cases literal : gap.literal with
  | number value span =>
    rw [literal] at member
    exact absurd member number_not_linked
  | text value span => exact ⟨_, rfl⟩
  | array elements span => exact ⟨_, rfl⟩
  | reference r =>
    rw [literal] at member
    obtain ⟨id, target, lt⟩ := resolved r (laid.reference_recorded sound member)
    have inside : p.statements[id]? = some p.statements[id] := Array.getElem?_eq_getElem lt
    unfold resolve
    dsimp only
    rw [target, Option.bind_some, inside]
    dsimp only
    cases recorded : d.addressOf? p.statements[id].id with
    | some address => exact ⟨_, rfl⟩
    | none =>
      cases body : p.statements[id].body with
      | constant data => exact ⟨_, rfl⟩
      | _ =>
        have executable : p.statements[id] ∈ p.executable := by
          refine List.mem_filter.2 ⟨Array.mem_toList_iff.2 (Array.getElem_mem lt), ?_⟩
          unfold Statement.isConstant
          rw [body]
          rfl
        obtain ⟨address, found⟩ := laid.executable_addressed sound executable
        rw [recorded] at found
        cases found

/-- Filling the gaps of a program whose references are resolved comes to an end. -/
theorem fillGaps_ok (sound : p.Sound) (resolved : p.Resolved) (bound : Nat) :
    ∀ {d : Draft} {pieces : List Piece} {filled queue : List Gap},
      Laid bits p d pieces filled queue →
        ∃ last, (fillGaps bits p bound queue d).value = .ok last := by
  induction bound with
  | zero => exact fun _ => ⟨_, rfl⟩
  | succ bound ih =>
    intro d pieces filled queue laid
    cases queue with
    | nil => exact ⟨_, rfl⟩
    | cons gap rest =>
      obtain ⟨⟨word, next, milestone⟩, found⟩ := laid.cleared.resolve_ok sound resolved
      obtain ⟨put, -, -, later, -⟩ := laid.turn sound.id found
      unfold fillGaps
      rw [found]
      cases milestone with
      | none => exact ih later
      | some milestone => exact ih later

/-- A bound that covers the work is as good as any greater one. -/
theorem fillGaps_more (sound : p.Sound) (more bound : Nat) :
    ∀ {d : Draft} {pieces : List Piece} {filled queue : List Gap},
      Laid bits p d pieces filled queue → work p d queue ≤ bound →
        fillGaps bits p (bound + more) queue d = fillGaps bits p bound queue d := by
  induction bound with
  | zero =>
    intro d pieces filled queue laid enough
    cases queue with
    | nil => cases more <;> rfl
    | cons gap rest =>
      have pos := gapWork_pos gap
      rw [work_cons] at enough
      omega
  | succ bound ih =>
    intro d pieces filled queue laid enough
    rw [Nat.succ_add]
    cases queue with
    | nil => rfl
    | cons gap rest =>
      unfold fillGaps
      cases found : resolve bits p { d with gaps := [] } gap.literal with
      | error fault => rfl
      | ok result =>
        obtain ⟨word, next, milestone⟩ := result
        obtain ⟨put, -, -, filled, less⟩ := laid.turn sound.id found
        have later := ih filled (by omega)
        cases milestone with
        | none => exact later
        | some milestone => exact congrArg (Report.enter _) (funext fun _ => later)

end

end Layout.Laid

/-- A parsed program whose references are resolved can be laid out, and no statement is put down
    twice. -/
theorem layout_ok {bits : Nat} (wide : 9 ≤ bits) (memorySize : Int) {limit : Int} {p : Program}
    (parsed : p.Parsed limit) (resolved : p.Resolved) :
    ∃ o, (layout bits memorySize p).value = .ok o ∧
      (o.placements.toList.map Placement.id).Nodup := by
  have sound := parsed.program_sound
  have start := Layout.laid_code wide parsed
  have enough := Layout.work_le_workBound (p := p) (Layout.code bits p.executable)
    (Layout.code bits p.executable).gaps.reverse
  obtain ⟨d, done⟩ := start.fillGaps_ok sound resolved (Layout.workBound p
    (Layout.code bits p.executable).gaps.reverse)
  obtain ⟨pieces, filled, laid⟩ := Layout.fillGaps_laid sound.id _ start enough done
  refine ⟨⟨d.words, d.placements, p⟩, ?_, laid.placements_nodup sound.id⟩
  unfold layout
  simp only [Report.value_bind, done]
  split <;> rfl

/-! ## Actions -/

/-- A register action that expansion leaves can be encoded. -/
theorem registerAction?_isSome {token : Token} (known : token.Known) (plain : token.Plain)
    (kind : token.kind = .registerAction) :
    (Parser.registerAction? token.text).isSome = true := by
  have spelt := known.registerAction kind
  have names := plain.register kind
  unfold Item.Reader.namesRegister at names
  unfold Parser.registerAction?
  generalize token.text.toList = chars at spelt names ⊢
  cases spelt with
  | @mk op operand some =>
    rw [List.drop_succ_cons, List.drop_zero] at names
    unfold Isa.Register.ofName? at names
    rw [String.toList_ofList] at names
    split at names
    · obtain ⟨r, found⟩ := Option.isSome_iff_exists.1 names
      dsimp only
      rw [Isa.Operation.ofSymbol?_symbol, found]
      rfl
    · cases names

/-- A control action that expansion leaves can be encoded. -/
theorem controlAction?_isSome {token : Token} (known : token.Known)
    (kind : token.kind = .action) : (Parser.controlAction? token.text).isSome = true := by
  obtain ⟨c, same⟩ := known.action kind
  rw [same, Parser.controlAction?_text]
  rfl

/-! ## All stages -/

namespace Assembly

/-- The tokens of a source text with all calls expanded. -/
def expanded (source : Source) : List Token :=
  (expand (lex source).value.macros (lex source).value.tokens).value

/-- The program of a source text, whatever the problems with it. -/
def parsed (config : Config) (source : Source) : Program :=
  (program config.maxLiteralDepth source).value

theorem parsed_eq (config : Config) (source : Source) :
    parsed config source = (parseStatements config.maxLiteralDepth (expanded source)).1 := by
  unfold parsed program parse
  simp only [Report.value_bind]
  rfl

/-- What the stages rely on, whatever the source text. -/
structure Stages (config : Config) (source : Source) : Prop where
  /-- Every rule of the lexer covers some characters, and no more than there are. -/
  rules : ∀ (c : Char) (rest : List Char), 0 < (Lexeme.readPlain c rest).2 ∧
    (Lexeme.readPlain c rest).2 ≤ (c :: rest).length
  /-- The lexer spells tokens as their kinds demand. -/
  lexed : (∀ token ∈ (lex source).value.tokens, token.Known) ∧
    ∀ m ∈ (lex source).value.macros, m.All Token.Known
  /-- The expansion ends by itself, and not for want of depth. -/
  depth : ∀ more : Nat, Expansion.expandTokens
    ((Expansion.names (lex source).value.macros).length + 1 + more) true
      [(lex source).value.macros] [] (lex source).value.tokens =
        expand (lex source).value.macros (lex source).value.tokens
  /-- The expansion leaves no call behind. -/
  plain : ∀ token ∈ expanded source, token.Known ∧ token.Plain
  /-- Every action can be encoded. -/
  actions : ∀ token ∈ expanded source,
    (token.kind = .registerAction → (Parser.registerAction? token.text).isSome = true) ∧
      (token.kind = .action → (Parser.controlAction? token.text).isSome = true)
  /-- The parser makes statements that can be encoded. -/
  sound : (parsed config source).Sound
  /-- A program without problems has only references that mean something. -/
  resolved : (program config.maxLiteralDepth source).problems = [] →
    (parsed config source).Resolved
  /-- A program without problems can be laid out, each statement in one place. -/
  laid : (program config.maxLiteralDepth source).problems = [] →
    ∃ o, (layout config.wordBits config.memorySize (parsed config source)).value = .ok o ∧
      (o.placements.toList.map Placement.id).Nodup
  /-- The linker ends by itself, and not for want of a greater bound. -/
  bound : (program config.maxLiteralDepth source).problems = [] → ∀ more : Nat,
    let code := Layout.code config.wordBits (parsed config source).executable
    let bound := Layout.workBound (parsed config source) code.gaps.reverse
    Layout.fillGaps config.wordBits (parsed config source) (bound + more) code.gaps.reverse code =
      Layout.fillGaps config.wordBits (parsed config source) bound code.gaps.reverse code

/-- An assembly has come to an image and met no problem, or it has met problems and come to no
    image. -/
def Ends (a : Assembly) : Prop :=
  a.fault = none ∧
    ((a.log.problems = #[] ∧ a.stopped = false ∧ ∃ o, a.output = some o) ∨
      (a.log.problems ≠ #[] ∧ a.output = none))

theorem resolution_of_program {limit : Int} {source : Source}
    (none : (program limit source).problems = []) :
    (program limit source).value.resolution.2 = [] := by
  unfold program at none ⊢
  simp only [Report.problems_bind, Report.value_bind, List.append_eq_nil_iff] at none ⊢
  exact resolution_of_problems none.2.2.2.2.1

theorem stages (config : Config) (source : Source) : Stages config source := by
  obtain ⟨tokens, macros⟩ := known_lex source
  have plain := known_expand macros tokens
  have sound : (parsed config source).Sound := by
    rw [parsed_eq]
    exact sound_parseStatements _ fun token member => (plain token member).1
  have resolved (none : (program config.maxLiteralDepth source).problems = []) :
      (parsed config source).Resolved := by
    refine sound.resolved (resolution_of_program none) ?_
    rw [parsed_eq]
    exact fun _ => block_ne_nil
  refine ⟨?_, ⟨tokens, macros⟩, expandTokens_eq_expand _ _, plain, ?_, sound, resolved, ?_, ?_⟩
  · intro c rest
    have reads := Lexeme.reads_readPlain c rest
    exact ⟨reads.pos, reads.le⟩
  · intro token member
    obtain ⟨known, plain⟩ := plain token member
    exact ⟨registerAction?_isSome known plain, controlAction?_isSome known⟩
  · intro none
    exact layout_ok config.nine_le_wordBits _ (parsed_of_program none) (resolved none)
  · intro none more
    have start := Layout.laid_code config.nine_le_wordBits (parsed_of_program none)
    exact start.fillGaps_more sound more _ (Layout.work_le_workBound _ _)

theorem problems_ne_of_full {config : Config} {log : Log}
    (full : (config.maxErrors : Int) ≤ log.problems.size) : log.problems ≠ #[] := by
  have pos := config.maxErrors_pos
  intro none
  rw [none] at full
  simp only [Array.size_empty] at full
  omega

theorem problems_ne_of_hasProblems {log : Log} (some : log.hasProblems = true) :
    log.problems ≠ #[] := by
  intro none
  unfold Log.hasProblems at some
  rw [none] at some
  cases some

theorem ends (config : Config) (source : Source) : (ofSource config source).Ends := by
  unfold ofSource ofParsed
  split
  · rename_i log ran
    exact ⟨rfl, .inr ⟨problems_ne_of_full (Report.run_eq_none ran), rfl⟩⟩
  · rename_i p log ran
    obtain ⟨value, problems⟩ := Report.run_eq_some ran
    split
    · rename_i some
      exact ⟨rfl, .inr ⟨problems_ne_of_hasProblems some, rfl⟩⟩
    · rename_i clean
      rw [problems_of_not clean] at problems
      have none := (List.append_eq_nil_iff.1 problems.symm).2
      split
      · rename_i last laid
        exact ⟨rfl, .inr ⟨problems_ne_of_full (Report.run_eq_none laid), rfl⟩⟩
      · rename_i fault last laid
        -- A program without problems can be laid out.
        obtain ⟨o, ok, -⟩ := (stages config source).laid none
        have failed := (Report.run_eq_some laid).1
        unfold parsed at ok
        rw [value, failed] at ok
        cases ok
      · rename_i output last laid
        refine ⟨rfl, ?_⟩
        dsimp only
        by_cases some : last.hasProblems = true
        · rw [if_pos some]
          exact .inr ⟨problems_ne_of_hasProblems some, rfl⟩
        · rw [if_neg some]
          have empty := problems_of_not some
          exact .inl ⟨Array.toList_eq_nil_iff.1 empty, rfl, output, rfl⟩

/-! ## Assemblies on a host -/

/-- The demands that an assembly makes, up to the problem that fills its log. -/
def asked (config : Config) (source : Source) : List Demand :=
  (program config.maxLiteralDepth source).asked config.maxErrors .empty

/-- How an assembly on a host ends. -/
inductive EndsOn (host : Host) (config : Config) (source : Source) :
    Except (Crash × Log) Assembly → Prop where
  /-- As it does anywhere, all demands being met. -/
  | whole (met : ∀ d ∈ asked config source, host.refusal d = none) :
      EndsOn host config source (.ok (ofSource config source))
  /-- At the first demand that is not met: for a lack of nesting, of a length or of room, or for a
      numeral with too many digits, and with what has been reported before. -/
  | broken {before after : List Demand} {d : Demand} {crash : Crash} {last : Log}
      (made : asked config source = before ++ d :: after)
      (met : ∀ d ∈ before, host.refusal d = none) (refused : host.refusal d = some crash)
      (lacks : crash.Lacks host) (begins : last.Begins (ofSource config source).log) :
      EndsOn host config source (.error (crash, last))

/-- Laying a program out reports behind what has been reported before. -/
theorem begins_ofParsed (config : Config) (outcome : Option Program × Log) :
    outcome.2.Begins (ofParsed config outcome).log := by
  obtain ⟨_ | p, log⟩ := outcome
  · exact .refl log
  · have later := Report.begins_run config.maxErrors
      (layout config.wordBits config.memorySize p) log
    unfold ofParsed
    dsimp only
    split
    · exact .refl log
    · split
      all_goals
        rename_i laid
        rw [laid] at later
        exact later

theorem endsOn (host : Host) (config : Config) (source : Source) :
    EndsOn host config source (onHost host config source) := by
  have runs := Report.runsOn host config.maxErrors (program config.maxLiteralDepth source) .empty
  unfold onHost
  generalize (program config.maxLiteralDepth source).runOn host config.maxErrors .empty = outcome
    at runs ⊢
  cases runs with
  | ends met => exact .whole met
  | @breaks before after d crash last made met refused begins =>
    have member : d ∈ asked config source := by
      unfold asked
      rw [made]
      exact List.mem_append_right _ List.mem_cons_self
    have sized := asks_program config.maxLiteralDepth source d (Report.demands_of_asked member)
    exact .broken made met refused (host.lacks_of_sized sized refused)
      (begins.trans (begins_ofParsed config _))

/-- The stages keep what they rely on, whatever the source text, and the assembly ends with an image
    or with problems. On a host it ends so, too, unless the host does not meet a demand for nesting,
    for a length, for room or for the digits of a numeral; nothing else breaks it. -/
theorem outcome (host : Host) (config : Config) (source : Source) :
    (ofSource config source).Ends ∧ Stages config source ∧
      EndsOn host config source (onHost host config source) :=
  ⟨ends config source, stages config source, endsOn host config source⟩

/-- A string that a text asks to be longer than any sequence can be. -/
def longSource : Source := ⟨"text", "a = \"x\" ~9999999999999999999"⟩

/-- Its assembly breaks on every host. -/
theorem onHost_long (host : Host) :
    ∃ last, onHost host .standard longSource = .error (.length, last) := by
  have made : asked .standard longSource = [.numeral 19, .sequence 9999999999999999997] := by
    decide +kernel
  have read : host.refusal (.numeral 19) = none := if_pos host.lengths_read
  have refused : host.refusal (.sequence 9999999999999999997) = some .length := by
    unfold Host.refusal
    dsimp only
    rw [if_pos (by decide)]
  have ends := endsOn host .standard longSource
  generalize onHost host .standard longSource = outcome at ends
  cases ends with
  | whole met =>
    have none := met (.sequence 9999999999999999997) (made ▸ .tail _ (.head _))
    rw [refused] at none
    cases none
  | @broken before after d crash last first met refused' =>
    rw [made] at first
    cases before with
    | nil =>
      cases first
      rw [read] at refused'
      cases refused'
    | cons other before =>
      obtain ⟨rfl, first⟩ := List.cons.inj first
      cases before with
      | nil =>
        cases first
        rw [refused] at refused'
        cases refused'
        exact ⟨last, rfl⟩
      | cons other before => cases before <;> cases first

end Assembly

end Asm

end NineBit

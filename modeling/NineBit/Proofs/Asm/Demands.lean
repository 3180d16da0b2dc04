import Mathlib.Data.List.Dedup
import NineBit.Proofs.Asm.Statements
import NineBit.Proofs.Asm.Substitution

/-!
# What an assembly asks of its host

The lexer asks nothing. Expansion asks for nesting, one level for each call and each register action
that is open (`Expansion.asks_expandTokens`): the levels of the call tree it is in, and for each
name in use those of the call tree of one body, and no name is in use twice. So the nesting is
bounded before expansion starts (`Expansion.levels`). The parser asks for nesting where it opens an
array, for a length where a mark of length says so, and for the digits of every numeral.
-/

namespace NineBit

/-- A demand for no more than so much nesting, or for a character that is there. -/
inductive Demand.Within (most : Nat) : Demand → Prop where
  | nesting {levels : Nat} (le : levels ≤ most) : Within most (.nesting levels)
  | character {text : String} (some : text ≠ "") : Within most (.character text 0)

namespace Demand.Within

variable {most : Nat} {d : Demand}

theorem mono {more : Nat} (le : most ≤ more) (within : d.Within most) : d.Within more := by
  cases within with
  | nesting below => exact .nesting (Nat.le_trans below le)
  | character some => exact .character some

theorem sized (within : d.Within most) : d.Sized := by
  cases within with
  | nesting => exact .nesting _
  | character some => exact .character some

theorem met {host : Host} (within : d.Within most) (enough : most ≤ host.nesting) :
    host.refusal d = none := by
  cases within with
  | nesting below => exact host.refusal_nesting (Nat.le_trans below enough)
  | character some => exact host.refusal_character some

end Demand.Within

namespace Report.Asks

variable {α : Type} {most : Nat}

/-- A computation inside another one makes its demands one level deeper. -/
theorem inside {r : Unit → Report α} (inner : (r ()).Asks (Demand.Within most)) :
    (Report.nested r).Asks (Demand.Within (most + 1)) := by
  refine inner.nested (.nesting (Nat.succ_pos most)) (fun levels within => ?_)
    fun d other within => ?_
  · cases within with
    | nesting le => exact .nesting (Nat.succ_le_succ le)
  · exact within.mono (Nat.le_succ most)

end Report.Asks

namespace Asm

/-! ## Levels of calls -/

namespace Item

mutual

/-- How many calls and register actions are open inside one another in an item. -/
def levels : Item → Nat
  | .call _ arguments _ => levelsOfArguments arguments + 1
  | .register _ => 1
  | _ => 0

/-- The levels of the deepest of some items. -/
def levelsOf : List Item → Nat
  | [] => 0
  | item :: rest => max item.levels (levelsOf rest)

/-- The levels of the deepest of some arguments. -/
def levelsOfArguments : List (List Item) → Nat
  | [] => 0
  | argument :: rest => max (levelsOf argument) (levelsOfArguments rest)

end

end Item

namespace Expansion

/-- The levels of the deepest body of some macros. -/
def deepest (macros : Frame) : Nat :=
  (macros.map fun m => Item.levelsOf (Item.ofTokens m.body)).foldr max 0

/-- A bound on the nesting that the expansion of a program comes to: the levels of the program, and
    for each different name those of the deepest body. -/
def levels (macros : Frame) (tokens : List Token) : Nat :=
  Item.levelsOf (Item.ofTokens tokens) + (names macros).dedup.length * deepest macros

theorem le_deepest {macros : Frame} {m : Macro} (member : m ∈ macros) :
    Item.levelsOf (Item.ofTokens m.body) ≤ deepest macros := by
  induction macros with
  | nil => exact absurd member List.not_mem_nil
  | cons first rest ih =>
    rcases List.mem_cons.1 member with rfl | later
    · exact Nat.le_max_left _ _
    · exact Nat.le_trans (ih later) (Nat.le_max_right _ _)

/-- Tokens in which no call is left open no level. -/
theorem levelsOf_plain {tokens : List Token} (plain : ∀ token ∈ tokens, token.Plain) :
    Item.levelsOf (Item.ofTokens tokens) = 0 := by
  have copies : ∀ tokens : List Token, Item.levelsOf (tokens.map Item.plain) = 0 := by
    intro tokens
    induction tokens with
    | nil => rfl
    | cons token rest ih =>
      rw [List.map_cons, Item.levelsOf, ih]
      rfl
  rw [Item.sequence_iff.1 (Item.sequence_plain plain)]
  exact copies tokens

/-! ## Demands of expansion -/

/-- The macros that items see have register actions with a text, and bodies of no more than so many
    levels. -/
abbrev Shallow (most : Nat) (m : Macro) : Prop :=
  m.All Operates ∧ Item.levelsOf (Item.ofTokens m.body) ≤ most

/-- The bodies that items may call for make no demands but for so much nesting. -/
def Context.BodiesWithin (most : Nat) (ctx : Context) : Prop :=
  ∀ (name : String) (m : Macro) (home : Scope), ctx.scope.resolve? name = some (m, home) →
    name ∉ ctx.stack → ∀ arguments : List (List Token),
      (∀ argument ∈ arguments, ∀ token ∈ argument, Operates token ∧ token.Plain) →
      (ctx.expandBody (bindArguments m arguments home) (ctx.stack ++ [name]) m.body).Asks
        (Demand.Within most)

section
variable {ctx : Context} {most : Nat}

theorem asks_report (fault : ExpansionFault) (span : Span) :
    (fault.report span).Asks (Demand.Within most) := .tell nofun

theorem asks_drop (fault : ExpansionFault) (span : Span) :
    (do
      fault.report span
      return ([] : List Token)).Asks (Demand.Within most) :=
  .bind (asks_report fault span) (.done [])

theorem asks_expandCall (bodies : ctx.BodiesWithin most) (ofProgram : Bool) (head : Token)
    {arguments : List (List Token)}
    (given : ∀ argument ∈ arguments, ∀ token ∈ argument, Operates token ∧ token.Plain) :
    (expandCall ctx ofProgram head arguments).Asks (Demand.Within most) := by
  unfold expandCall
  dsimp only
  cases found : ctx.scope.resolve? head.text with
  | none => exact asks_drop _ _
  | some bound =>
    obtain ⟨m, home⟩ := bound
    dsimp only
    by_cases recursive : head.text ∈ ctx.stack
    · rw [if_pos recursive]
      exact asks_drop _ _
    · rw [if_neg recursive]
      have body := bodies head.text m home found recursive arguments given
      have noted : Report.Asks (Demand.Within most) do
          let body ← ctx.expandBody (bindArguments m arguments home) (ctx.stack ++ [head.text])
            m.body
          if ofProgram then
            Report.note s!"expands to {preview body}" (some head.span)
          return body := by
        refine .bind body ?_
        dsimp only
        split
        · exact .bind (.tell nofun) (.done _)
        · exact .done _
      split
      · exact asks_drop _ _
      · split
        · exact noted
        · exact .bind (.tell nofun) noted

theorem asks_expandRegister (bodies : ctx.BodiesWithin most) {token : Token}
    (operates : Operates token) (kind : token.kind = .registerAction) :
    (expandRegister ctx token).Asks (Demand.Within most) := by
  unfold expandRegister
  refine .bind (.ask (.character (operates kind))) ?_
  dsimp only
  cases found : ctx.scope.resolve? (String.ofList (token.text.toList.drop 1)) with
  | none => exact asks_drop _ _
  | some bound =>
    obtain ⟨m, home⟩ := bound
    dsimp only
    split
    · exact asks_drop _ _
    · by_cases recursive : String.ofList (token.text.toList.drop 1) ∈ ctx.stack
      · rw [if_pos recursive]
        exact asks_drop _ _
      · rw [if_neg recursive]
        have body := bodies _ m home found recursive [] fun _ member =>
          absurd member List.not_mem_nil
        rw [bindArguments_nil] at body
        refine .bind body ?_
        split
        · split
          · exact .done _
          · exact asks_drop _ _
        · exact asks_drop _ _

mutual

theorem asks_expandItem (bodies : ctx.BodiesWithin most) (keeps : ctx.All Operates)
    (ofProgram : Bool) : ∀ item : Item, item.All Operates →
      (expandItem ctx ofProgram item).Asks (Demand.Within (item.levels + most))
  | .plain token, _ => .done [token]
  | .stray token, _ => asks_drop _ _
  | .nestedGroup token, _ => asks_drop _ _
  | .register token, known => by
    cases known with
    | register operates kind =>
      have inside := Report.Asks.inside (r := fun _ => expandRegister ctx token)
        (asks_expandRegister bodies operates kind)
      exact inside.mono fun d within => within.mono (Nat.le_of_eq (Nat.add_comm most 1))
  | .call head arguments closed, known => by
    cases known with
    | call _ _ inside =>
      have given := all_expandArguments keeps_operates keeps arguments [] inside
        fun _ member => absurd member List.not_mem_nil
      have called := (asks_expandCall bodies ofProgram head given).mono fun d within =>
        within.mono (Nat.le_add_left most (Item.levelsOfArguments arguments))
      have first := asks_expandArguments bodies keeps arguments [] inside
      have level : (Item.call head arguments closed).levels + most =
          Item.levelsOfArguments arguments + most + 1 := by
        rw [Item.levels]
        omega
      unfold expandItem
      rw [level]
      refine Report.Asks.inside (.bind first ?_)
      dsimp only
      split
      · exact called
      · exact .bind (asks_report _ _) called

theorem asks_expandItems (bodies : ctx.BodiesWithin most) (keeps : ctx.All Operates)
    (ofProgram : Bool) : ∀ (items : List Item) (tokens : List Token),
      (∀ item ∈ items, item.All Operates) →
        (expandItems ctx ofProgram tokens items).Asks
          (Demand.Within (Item.levelsOf items + most))
  | [], _, _ => .done _
  | item :: rest, tokens, known => by
    obtain ⟨here, others⟩ := List.forall_mem_cons.1 known
    unfold expandItems
    rw [Item.levelsOf]
    refine .bind ?_ ?_
    · exact (asks_expandItem bodies keeps ofProgram item here).mono fun d within =>
        within.mono (Nat.add_le_add_right (Nat.le_max_left _ _) most)
    · exact (asks_expandItems bodies keeps ofProgram rest _ others).mono fun d within =>
        within.mono (Nat.add_le_add_right (Nat.le_max_right _ _) most)

theorem asks_expandArguments (bodies : ctx.BodiesWithin most) (keeps : ctx.All Operates) :
    ∀ (arguments : List (List Item)) (before : List (List Token)),
      (∀ argument ∈ arguments, ∀ item ∈ argument, item.All Operates) →
        (expandArguments ctx before arguments).Asks
          (Demand.Within (Item.levelsOfArguments arguments + most))
  | [], _, _ => .done _
  | argument :: rest, before, known => by
    obtain ⟨here, others⟩ := List.forall_mem_cons.1 known
    unfold expandArguments
    rw [Item.levelsOfArguments]
    refine .bind ?_ ?_
    · exact (asks_expandItems bodies keeps false argument [] here).mono fun d within =>
        within.mono (Nat.add_le_add_right (Nat.le_max_left _ _) most)
    · exact (asks_expandArguments bodies keeps rest _ others).mono fun d within =>
        within.mono (Nat.add_le_add_right (Nat.le_max_right _ _) most)

end

end

/-- With each body one more name is in use, so that all bodies inside one another need no more than
    the levels of a body for each name that is not in use yet. -/
theorem asks_expandTokens {known : List String} {most : Nat} (depth : Nat) :
    ∀ {scope : Scope} {stack : List String} (ofProgram : Bool) (tokens : List Token),
      Nested known depth scope stack → scope.All (Shallow most) →
      (∀ token ∈ tokens, Operates token) →
        (expandTokens depth ofProgram scope stack tokens).Asks (Demand.Within
          (Item.levelsOf (Item.ofTokens tokens) + (known.length - stack.length) * most)) := by
  induction depth with
  | zero => exact fun _ _ _ _ _ => .done []
  | succ depth ih =>
    intro scope stack ofProgram tokens nested shallow operates
    have all : scope.All (Macro.All Operates) := fun frame member m inside =>
      (shallow frame member m inside).1
    refine asks_expandItems ?_ ⟨all, yields_expandTokens keeps_operates depth false⟩ ofProgram
      (Item.ofTokens tokens) [] (Item.all_ofTokens operates)
    intro name m home found fresh arguments given
    obtain ⟨⟨inside, le⟩, outer⟩ := shallow.resolve found
    have body := nested.body found fresh arguments
    have within : (bindArguments m arguments home).All (Shallow most) := by
      refine outer.bindArguments fun x _ argument member => ⟨fun token inside => ?_, ?_⟩
      · exact (given argument member token inside).1
      · have plain : ∀ token ∈ argument, token.Plain := fun token inside =>
          (given argument member token inside).2
        exact Nat.le_trans (Nat.le_of_eq (levelsOf_plain plain)) (Nat.zero_le most)
    refine (ih false m.body body within inside).mono fun d bounded => bounded.mono ?_
    -- The names in use are different known ones, and there is one more now.
    have count := (List.subperm_of_subset body.nodup body.subset).length_le
    rw [List.length_append, List.length_singleton] at count ⊢
    obtain ⟨left, same⟩ : ∃ left, known.length - stack.length = left + 1 :=
      ⟨known.length - stack.length - 1, by omega⟩
    have fewer : known.length - (stack.length + 1) = left := by omega
    rw [same, fewer, Nat.succ_mul]
    omega

/-- Names count once. -/
theorem Nested.distinct (macros : Frame) {depth : Nat}
    (enough : (names macros).dedup.length < depth) :
    Nested (names macros).dedup depth [macros] [] where
  named frame member m inside := by
    rw [List.mem_singleton.1 member] at inside
    obtain ⟨name, parameters⟩ := namedIn_names inside
    exact ⟨List.mem_dedup.2 name, fun x parameter => List.mem_dedup.2 (parameters x parameter)⟩
  nodup := List.nodup_nil
  subset _ member := absurd member List.not_mem_nil
  depth := enough

end Expansion

/-- Expansion asks for nesting only, and for no more than the macros and the program have levels. -/
theorem asks_expand {macros : Frame} {tokens : List Token}
    (bodies : ∀ m ∈ macros, m.All Expansion.Operates)
    (operates : ∀ token ∈ tokens, Expansion.Operates token) :
    (expand macros tokens).Asks (Demand.Within (Expansion.levels macros tokens)) := by
  have less : (Expansion.names macros).dedup.length ≤ (Expansion.names macros).length :=
    (List.dedup_sublist _).length_le
  refine Expansion.asks_expandTokens _ true tokens (.distinct macros (by omega)) ?_ operates
  intro frame member m inside
  rw [List.mem_singleton.1 member] at inside
  exact ⟨bodies m inside, Expansion.le_deepest inside⟩

/-! ## Demands of the lexer and the parser -/

theorem Lexer.asks_scan {P : Demand → Prop} (source : Source) (s : State) (start : Position)
    (text : List Char) : (scan source s start text).Asks P := by
  have problem {α : Type} (d : Diagnostic) {next : Unit → Report α} (later : (next ()).Asks P) :
      (Report.enter (.problem d) next).Asks P := by
    intro demand member
    rw [Report.mem_demands] at member
    rcases List.mem_cons.1 member with first | other
    · cases first
    · exact later demand (Report.mem_demands.2 other)
  fun_induction scan source s start text with
  | case1 s start =>
    unfold noting
    split
    · exact .done s
    · exact problem _ (.done s)
  | case2 s start c rest lexeme more read used stop next accepted ih => exact ih
  | case3 s start c rest lexeme more read used stop next d accepted ih => exact problem d ih

namespace Parser

theorem passage_asks : Passage fun s _ next _ => s.Asks next where
  pass faulted _ := faulted.asks
  refer _ _ _ _ := .of_eq rfl
  trans first second := first.trans second

section
variable (limit : Int) (s : State)

theorem demands_addStatement (span : Span) (body : Statement.Body) :
    (s.addStatement span body).demands = s.demands := by
  unfold State.addStatement
  split
  · rfl
  · dsimp only
    split <;> rfl

theorem asks_addMovement (target : Token) (index : Option Literal) (part : SourcePart) :
    part.reading.state.Asks (addMovement target index part) := by
  obtain ⟨_, _, -, -, same⟩ | faulted := State.Faulted.of_addMovement target index part
  · rw [same]
    exact .of_eq (demands_addStatement _ _ _)
  · exact faulted.asks

theorem asks_readMovement (target : Token) (rest : List Token) :
    s.Asks (readMovement limit s target rest).1 := by
  have index := passage_asks.readLiteral limit s ⟨target, rest⟩
  have reads := readsMovement limit s target rest
  generalize readMovement limit s target rest = read at reads
  cases reads with
  | unsigned what => exact index.trans (State.Faulted.expected _ _ _).asks
  | sourceless what left found =>
    have source := passage_asks.source limit s target left
    rw [found] at source
    exact source.trans (State.Faulted.expected _ _ _).asks
  | whole left equals found =>
    have source := passage_asks.source limit s target left
    rw [found] at source
    exact source.trans (asks_addMovement target _ _)

theorem asks_readStatement (token : Token) (rest : List Token) :
    s.Asks (readStatement limit s token rest).1 := by
  have reads := readsStatement limit s token rest
  generalize readStatement limit s token rest = read at reads
  cases reads with
  | registerAction | controlAction =>
    unfold State.addAction
    split
    · exact .of_eq (demands_addStatement _ _ _)
    · exact (State.Faulted.fault _ _ _).asks
  | condition => exact .of_eq (demands_addStatement _ _ _)
  | label =>
    unfold State.awaitStatement
    split <;> exact .of_eq rfl
  | movement => exact asks_readMovement limit s token rest
  | opening => exact .of_eq rfl
  | closing =>
    unfold State.closeBlock
    split
    · exact (State.Faulted.fault _ _ _).asks
    · exact .of_eq rfl
  | constant =>
    exact (passage_asks.readLiteralFrom limit s token rest).trans
      (.of_eq (demands_addStatement _ _ _))
  | unread => exact passage_asks.readLiteralFrom limit s token rest
  | unexpected => exact (State.Faulted.fault _ _ _).asks

theorem asks_readStatements (tokens : List Token) :
    s.Asks (readStatements limit s tokens) := by
  fun_induction readStatements limit s tokens with
  | case1 s => exact .of_eq rfl
  | case2 s token rest next ih => exact (asks_readStatement limit s token rest).trans ih

end

end Parser

/-- Parsing makes no demands but for sizes. -/
theorem asks_parse (limit : Int) (tokens : List Token) :
    (parse limit tokens).Asks Demand.Sized := by
  have made : ∀ made ∈ (Parser.finalState limit tokens).demands, made.2.Sized := fun made member =>
    (((Parser.asks_readStatements limit .initial tokens).trans
      (Parser.State.Faulted.atEnd _ tokens).asks) made member).resolve_left List.not_mem_nil
  have recorded (s : Parser.State) (sized : ∀ made ∈ s.demands, made.2.Sized) :
      (s.entries.forM Report.tell).Asks Demand.Sized := by
    have after (count : Nat) : ∀ d, Entry.demand d ∈ s.demandsAfter count → d.Sized := by
      intro d member
      obtain ⟨made, inside, same⟩ := List.mem_map.1 member
      cases same
      exact sized made (List.mem_reverse.1 (List.mem_filter.1 inside).1)
    intro d member
    rw [Report.mem_demands, entries_forM_tell] at member
    rcases List.mem_append.1 member with between | last
    · obtain ⟨found, -, inside⟩ := List.mem_flatMap.1 between
      rcases List.mem_append.1 inside with here | fault
      · exact after _ d here
      · cases List.mem_singleton.1 fault
    · exact after _ d last
  have reported : ∀ problems : List Diagnostic, (reportAll problems).Asks Demand.Sized := by
    intro problems d member
    rw [Report.mem_demands] at member
    induction problems with
    | nil => exact absurd member List.not_mem_nil
    | cons first rest ih =>
      rcases List.mem_cons.1 member with same | later
      · cases same
      · exact ih later
  unfold parse
  exact .bind (recorded _ made) (.bind (reported _) (.done _))

/-- No stage up to parsing makes a demand but for sizes. -/
theorem Assembly.asks_program (limit : Int) (source : Source) :
    (program limit source).Asks Demand.Sized := by
  obtain ⟨tokens, macros⟩ := known_lex source
  have lexed : (lex source).Asks Demand.Sized :=
    .bind (Lexer.asks_scan source _ _ _) (.done _)
  have expanded := (asks_expand (fun m member token inside =>
    operates_of_known (macros m member token inside)) fun token member =>
      operates_of_known (tokens token member)).mono fun _ within => within.sized
  unfold program
  refine .bind lexed (.bind (.tell nofun) (.bind expanded (.bind (.tell nofun) ?_)))
  exact .bind (asks_parse limit _) (.bind (.tell nofun) (.done _))

end Asm

end NineBit

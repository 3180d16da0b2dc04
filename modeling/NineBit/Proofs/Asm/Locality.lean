import NineBit.Proofs.Asm.Nesting
import NineBit.Proofs.Asm.Substitution

/-!
# Expansion piece by piece

Where the arguments of all calls are closed, a token sequence and what follows it are expanded each
for itself (`expand_append`): the call tree of the whole is that of the one followed by that of the
other (`Item.Sequence.append`), because the reader looks ahead for an opening parenthesis only, and
items are expanded one after the other (`Expansion.expandItems_append`). What goes wrong with an
item therefore stays with it: an item that cannot be expanded is left out, and the others come to
what they come to without it (`Expansion.Context.Refuses`).
-/

namespace NineBit.Asm

namespace Item

/-- The arguments are closed, if the item is a call. -/
def isClosed : Item → Bool
  | .call _ _ closed => closed
  | _ => true

/-- Tokens that do not go on with a call in front of them: they begin with no opening
    parenthesis. -/
def Bare (tokens : List Token) : Prop := ∀ next ∈ tokens.head?, next.kind ≠ .argumentsStart

/-! ## Reading in front of more tokens -/

theorem BeginsLike.of_append {tokens : List Token} (some : tokens ≠ []) (more : List Token) :
    BeginsLike (tokens ++ more) tokens := by
  cases tokens with
  | nil => exact absurd rfl some
  | cons first rest => exact fun next same => same

/-- What ends with its closing parenthesis has at least that token. -/
theorem Arguments.ne_nil {tokens rest : List Token} {arguments : List (List Item)}
    (closed : Arguments tokens arguments true rest) : tokens ≠ [] := by
  cases closed with
  | close => exact List.cons_ne_nil _ _
  | item first later =>
    obtain ⟨taken, some, rfl, -⟩ := first.frame
    exact fun none => some (List.append_eq_nil_iff.1 none).1
  | group => exact List.cons_ne_nil _ _

/-- Arguments that are closed end at their closing parenthesis, whatever comes later. -/
theorem Arguments.append (more : List Token) : ∀ {tokens rest : List Token}
    {arguments : List (List Item)}, Arguments tokens arguments true rest →
    Arguments (tokens ++ more) arguments true (rest ++ more)
  | _, _, _, .close closes rest => .close closes (rest ++ more)
  | _, _, _, .item first later => by
    obtain ⟨taken, -, rfl, heads⟩ := first.frame
    rw [List.append_assoc]
    exact .item (heads _ (.of_append later.ne_nil more)) (later.append more)
  | _, _, _, .group opens first later => by
    obtain ⟨taken, rfl, group⟩ := first.frame
    rw [List.cons_append, List.append_assoc]
    exact .group opens (group _ (.of_append later.ne_nil more)) (later.append more)

/-- A closed item is the same one in front of tokens that do not go on with it. -/
theorem Heads.append {tokens rest more : List Token} {item : Item} (heads : Heads tokens item rest)
    (closed : item.isClosed = true) (bare : Bare more) :
    Heads (tokens ++ more) item (rest ++ more) := by
  cases heads with
  | plain leaf => exact .plain leaf _
  | register kind other => exact .register kind other _
  | name kind alone =>
    refine .name kind ?_
    cases rest with
    | nil => exact bare
    | cons first rest => exact alone
  | call kind opens inside =>
    have last : _ = true := closed
    subst last
    exact .call kind opens (inside.append more)

theorem Sequence.append {first second : List Token} {items more : List Item}
    (front : Sequence first items) (closed : ∀ item ∈ items, item.isClosed = true)
    (bare : Bare second) (back : Sequence second more) :
    Sequence (first ++ second) (items ++ more) := by
  induction front with
  | nil => exact back
  | item heads later ih =>
    obtain ⟨here, others⟩ := List.forall_mem_cons.1 closed
    exact .item (heads.append here bare) (ih others)
  | stray kind later ih =>
    obtain ⟨-, others⟩ := List.forall_mem_cons.1 closed
    exact .stray kind (ih others)

/-- The call trees of two sequences, one after the other. -/
theorem ofTokens_append {first second : List Token}
    (closed : ∀ item ∈ ofTokens first, item.isClosed = true) (bare : Bare second) :
    ofTokens (first ++ second) = ofTokens first ++ ofTokens second :=
  sequence_iff.1 ((sequence_iff.2 rfl : Sequence first _).append closed bare (sequence_iff.2 rfl))

end Item

namespace Expansion

/-! ## Expanding items one after the other -/

section
variable (ctx : Context) (ofProgram : Bool)

/-- The tokens so far only stand in front. -/
theorem expandItems_before (items : List Item) : ∀ before : List Token,
    expandItems ctx ofProgram before items = do
      let out ← expandItems ctx ofProgram [] items
      return before.reverse ++ out := by
  induction items with
  | nil =>
    intro before
    rw [expandItems, expandItems, pure_bind, List.reverse_nil, List.append_nil]
  | cons item rest ih =>
    intro before
    rw [expandItems, expandItems, bind_assoc]
    refine bind_congr fun expanded => ?_
    rw [ih (expanded.reverse ++ before), ih (expanded.reverse ++ []), bind_assoc]
    simp only [pure_bind, List.append_nil, List.reverse_append, List.reverse_reverse,
      List.append_assoc]

theorem expandItems_cons (item : Item) (rest : List Item) :
    expandItems ctx ofProgram [] (item :: rest) = do
      let first ← expandItem ctx ofProgram item
      let more ← expandItems ctx ofProgram [] rest
      return first ++ more := by
  rw [expandItems]
  refine bind_congr fun first => ?_
  rw [expandItems_before, List.append_nil, List.reverse_reverse]

theorem expandItems_append (front back : List Item) :
    expandItems ctx ofProgram [] (front ++ back) = do
      let first ← expandItems ctx ofProgram [] front
      let second ← expandItems ctx ofProgram [] back
      return first ++ second := by
  induction front with
  | nil => exact (bind_pure (expandItems ctx ofProgram [] back)).symm
  | cons item rest ih =>
    rw [List.cons_append, expandItems_cons, expandItems_cons, ih]
    simp only [bind_assoc, pure_bind, List.append_assoc]

theorem value_expandItems_append (front back : List Item) :
    (expandItems ctx ofProgram [] (front ++ back)).value =
      (expandItems ctx ofProgram [] front).value ++ (expandItems ctx ofProgram [] back).value := by
  rw [expandItems_append, Report.value_bind, Report.value_bind]
  rfl

theorem problems_expandItems_append (front back : List Item) :
    (expandItems ctx ofProgram [] (front ++ back)).problems =
      (expandItems ctx ofProgram [] front).problems ++
        (expandItems ctx ofProgram [] back).problems := by
  rw [expandItems_append, Report.problems_bind, Report.problems_bind]
  exact congrArg _ (List.append_nil _)

/-- One item comes to its own tokens and problems. -/
theorem expandItems_singleton (item : Item) :
    expandItems ctx ofProgram [] [item] = expandItem ctx ofProgram item := by
  have none : expandItems ctx ofProgram [] [] = pure [] := rfl
  rw [expandItems_cons, none]
  simp only [pure_bind, List.append_nil, bind_pure]

end

/-! ## Arguments that are closed -/

/-- The problem that a macro's arguments are not closed. -/
def unclosedAt (name : String) (span : Span) : Diagnostic :=
  ⟨.expansion, (ExpansionFault.unclosedArguments name).message, some span, none⟩

/-- No problem is that some arguments are not closed. -/
def NoneUnclosed (problems : List Diagnostic) : Prop :=
  ∀ name span, unclosedAt name span ∉ problems

/-- Arguments that are not closed are reported. -/
theorem unclosed_reported (ctx : Context) (ofProgram : Bool) {item : Item}
    (unclosed : item.isClosed = false) :
    ∃ name span, unclosedAt name span ∈ (expandItem ctx ofProgram item).problems := by
  cases item with
  | plain | register | stray | nestedGroup => cases unclosed
  | call head arguments closed =>
    have last : closed = false := unclosed
    subst last
    refine ⟨head.text, head.span, ?_⟩
    unfold expandItem
    rw [Report.problems_nested, Report.problems_bind]
    refine List.mem_append_right _ ?_
    exact List.mem_cons_self

theorem closed_of_noneUnclosed {ctx : Context} {ofProgram : Bool} {items : List Item}
    (none : NoneUnclosed (expandItems ctx ofProgram [] items).problems) :
    ∀ item ∈ items, item.isClosed = true := by
  intro item member
  obtain ⟨front, back, rfl⟩ := List.append_of_mem member
  cases same : item.isClosed with
  | true => rfl
  | false =>
    obtain ⟨name, span, reported⟩ := unclosed_reported ctx ofProgram same
    refine absurd ?_ (none name span)
    rw [problems_expandItems_append, ← List.singleton_append, problems_expandItems_append,
      expandItems_singleton]
    exact List.mem_append_right _ (List.mem_append_left _ reported)

/-- The wording of such a problem begins like no other one. -/
theorem noneUnclosed_of_wording {problems : List Diagnostic}
    (other : ∀ d ∈ problems, d.message.toList.take 12 ≠ "unterminated".toList) :
    NoneUnclosed problems := by
  intro name span member
  refine other _ member ?_
  have text : (unclosedAt name span).message =
      "unterminated argument list for macro '" ++ name ++ "'" := rfl
  rw [text, String.toList_append, String.toList_append, List.append_assoc]
  rfl

/-- At every depth and in every scope, tokens with closed arguments and those that follow them are
    expanded each for themselves. -/
theorem expandTokens_append (depth : Nat) (ofProgram : Bool) (scope : Scope) (stack : List String)
    {first second : List Token}
    (none : NoneUnclosed (expandTokens depth ofProgram scope stack first).problems)
    (bare : Item.Bare second) :
    expandTokens depth ofProgram scope stack (first ++ second) = do
      let front ← expandTokens depth ofProgram scope stack first
      let back ← expandTokens depth ofProgram scope stack second
      return front ++ back := by
  cases depth with
  | zero => rfl
  | succ depth =>
    unfold expandTokens at none ⊢
    rw [Item.ofTokens_append (closed_of_noneUnclosed none) bare, expandItems_append]

/-! ## Items that cannot be expanded -/

/-- Something is wrong with the item itself, so that it cannot be expanded: a call of an unknown
    macro, of one that is being expanded, or with a wrong number of arguments; a register action on
    anything but a name that stands for a register; a parenthesis at a wrong place. -/
inductive Context.Refuses (ctx : Context) : Item → Prop where
  | unknown {head : Token} {arguments : List (List Item)} {closed : Bool}
      (unknown : ctx.scope.resolve? head.text = none) : Refuses ctx (.call head arguments closed)
  | recursive {head : Token} {arguments : List (List Item)} {closed : Bool}
      (used : head.text ∈ ctx.stack) : Refuses ctx (.call head arguments closed)
  | count {head : Token} {arguments : List (List Item)} {closed : Bool} {m : Macro} {home : Scope}
      (found : ctx.scope.resolve? head.text = some (m, home))
      (other : arguments.length ≠ m.parameters.length) :
      Refuses ctx (.call head arguments closed)
  | operand {token : Token}
      (none : ∀ m home, ctx.scope.resolve? (String.ofList (token.text.toList.drop 1)) =
          some (m, home) → m.parameters = [] →
        String.ofList (token.text.toList.drop 1) ∉ ctx.stack → ∀ register : Token,
          (ctx.expandBody home.child (ctx.stack ++ [String.ofList (token.text.toList.drop 1)])
            m.body).value = [register] →
          register.kind = .location → (Isa.Register.ofName? register.text).isSome = false) :
      Refuses ctx (.register token)
  | nestedGroup (token : Token) : Refuses ctx (.nestedGroup token)
  | stray (token : Token) : Refuses ctx (.stray token)

section
variable {ctx : Context}

theorem length_expandArguments (arguments : List (List Item)) : ∀ before : List (List Token),
    (expandArguments ctx before arguments).value.length = before.length + arguments.length := by
  induction arguments with
  | nil => exact fun before => List.length_reverse
  | cons argument rest ih =>
    intro before
    unfold expandArguments
    rw [Report.value_bind, ih, List.length_cons, List.length_cons]
    omega

/-- A fault is reported and nothing is made. -/
theorem fault_dropped (fault : ExpansionFault) (span : Span) :
    (do
      fault.report span
      return ([] : List Token)).value = [] ∧
    (do
      fault.report span
      return ([] : List Token)).problems ≠ [] :=
  ⟨rfl, List.cons_ne_nil _ _⟩

theorem refused_call {head : Token} {arguments : List (List Item)} {closed : Bool}
    (ofProgram : Bool)
    (refused : ∀ expanded : List (List Token), expanded.length = arguments.length →
      (expandCall ctx ofProgram head expanded).value = [] ∧
        (expandCall ctx ofProgram head expanded).problems ≠ []) :
    (expandItem ctx ofProgram (.call head arguments closed)).value = [] ∧
      (expandItem ctx ofProgram (.call head arguments closed)).problems ≠ [] := by
  have count : (expandArguments ctx [] arguments).value.length = arguments.length := by
    rw [length_expandArguments, List.length_nil, Nat.zero_add]
  obtain ⟨value, problems⟩ := refused _ count
  unfold expandItem
  rw [Report.value_nested, Report.problems_nested, Report.value_bind, Report.problems_bind]
  cases closed with
  | true => exact ⟨value, fun none => problems (List.append_eq_nil_iff.1 none).2⟩
  | false => exact ⟨value, fun none => List.cons_ne_nil _ _ (List.append_eq_nil_iff.1 none).2⟩

/-- An item that cannot be expanded leaves a problem and no tokens. -/
theorem Context.Refuses.dropped {item : Item} (refused : ctx.Refuses item) (ofProgram : Bool) :
    (expandItem ctx ofProgram item).value = [] ∧
      (expandItem ctx ofProgram item).problems ≠ [] := by
  cases refused with
  | unknown unknown =>
    refine refused_call ofProgram fun expanded _ => ?_
    unfold expandCall
    dsimp only
    rw [unknown]
    exact fault_dropped _ _
  | @recursive head arguments closed used =>
    refine refused_call ofProgram fun expanded _ => ?_
    unfold expandCall
    dsimp only
    cases ctx.scope.resolve? head.text with
    | none => exact fault_dropped _ _
    | some found =>
      dsimp only
      rw [if_pos used]
      exact fault_dropped _ _
  | @count head arguments closed m home found other =>
    refine refused_call ofProgram fun expanded count => ?_
    unfold expandCall
    dsimp only
    rw [found]
    dsimp only
    rw [count, if_pos other]
    split
    · exact fault_dropped _ _
    · exact fault_dropped _ _
  | @operand token none =>
    unfold expandItem
    rw [Report.value_nested, Report.problems_nested]
    unfold expandRegister
    rw [Report.value_bind, Report.problems_ask]
    dsimp only
    cases found : ctx.scope.resolve? (String.ofList (token.text.toList.drop 1)) with
    | none => exact fault_dropped _ _
    | some bound =>
      obtain ⟨m, home⟩ := bound
      dsimp only
      split
      · exact fault_dropped _ _
      · rename_i parameters
        split
        · exact fault_dropped _ _
        · rename_i fresh
          have other := none m home found (by simpa using parameters) fresh
          rw [Report.value_bind, Report.problems_bind]
          have last : ∀ body : Report (List Token), ∀ next : Report (List Token),
              next.value = [] ∧ next.problems ≠ [] →
                next.value = [] ∧ body.problems ++ next.problems ≠ [] :=
            fun body next dropped =>
              ⟨dropped.1, fun none => dropped.2 (List.append_eq_nil_iff.1 none).2⟩
          refine last _ _ ?_
          split
          · rename_i register value
            split
            · rename_i names
              obtain ⟨kind, letters⟩ := Bool.and_eq_true_iff.1 names
              rw [other register value (of_decide_eq_true kind)] at letters
              cases letters
            · exact fault_dropped _ _
          · exact fault_dropped _ _
  | nestedGroup => exact fault_dropped _ _
  | stray => exact fault_dropped _ _

end

/-- An item that cannot be expanded changes nothing of what stands around it. -/
theorem expandItems_refused {ctx : Context} {item : Item} (refused : ctx.Refuses item)
    (ofProgram : Bool) (front back : List Item) :
    (expandItems ctx ofProgram [] (front ++ item :: back)).value =
        (expandItems ctx ofProgram [] (front ++ back)).value ∧
      (expandItems ctx ofProgram [] (front ++ item :: back)).problems =
        (expandItems ctx ofProgram [] front).problems ++
          (expandItem ctx ofProgram item).problems ++
            (expandItems ctx ofProgram [] back).problems := by
  rw [← List.singleton_append, value_expandItems_append, value_expandItems_append,
    value_expandItems_append, problems_expandItems_append, problems_expandItems_append,
    expandItems_singleton, (refused.dropped ofProgram).1, List.nil_append, List.append_assoc]
  exact ⟨rfl, rfl⟩

end Expansion

/-- What the items of a program see. -/
def Expansion.Context.ofProgram (macros : Frame) : Expansion.Context :=
  ⟨[macros], [], Expansion.expandTokens (Expansion.names macros).length false⟩

/-- A call of a program that cannot be expanded leaves nothing but a problem. -/
theorem expand_refused {macros : Frame} {tokens : List Token} {item : Item}
    (read : Item.ofTokens tokens = [item])
    (refused : (Expansion.Context.ofProgram macros).Refuses item) :
    (expand macros tokens).value = [] ∧ (expand macros tokens).problems ≠ [] := by
  unfold expand Expansion.expandTokens
  rw [read, Expansion.expandItems_singleton]
  exact refused.dropped true

/-- Tokens whose calls are all closed and those that follow them are expanded each for themselves:
    tokens, problems and notes are those of the one followed by those of the other. A call that
    cannot be expanded therefore drops its own tokens and no others; so it does within a body or an
    argument. -/
theorem expand_append {macros : Frame} {first second : List Token}
    (closed : Expansion.NoneUnclosed (expand macros first).problems) (bare : Item.Bare second) :
    (expand macros (first ++ second) = do
      let front ← expand macros first
      let back ← expand macros second
      return front ++ back) ∧
    (expand macros (first ++ second)).value =
      (expand macros first).value ++ (expand macros second).value ∧
    (expand macros (first ++ second)).problems =
      (expand macros first).problems ++ (expand macros second).problems ∧
    (∀ item : Item, Item.ofTokens first = [item] →
      (Expansion.Context.ofProgram macros).Refuses item →
        (expand macros (first ++ second)).value = (expand macros second).value ∧
        (expand macros first).problems ≠ []) ∧
    ∀ (ctx : Expansion.Context) (item : Item), ctx.Refuses item →
      ∀ (ofProgram : Bool) (front back : List Item),
        (Expansion.expandItems ctx ofProgram [] (front ++ item :: back)).value =
          (Expansion.expandItems ctx ofProgram [] (front ++ back)).value ∧
        (Expansion.expandItems ctx ofProgram [] (front ++ item :: back)).problems =
          (Expansion.expandItems ctx ofProgram [] front).problems ++
            (Expansion.expandItem ctx ofProgram item).problems ++
              (Expansion.expandItems ctx ofProgram [] back).problems := by
  have whole : expand macros (first ++ second) = do
      let front ← expand macros first
      let back ← expand macros second
      return front ++ back :=
    Expansion.expandTokens_append _ true [macros] [] closed bare
  have value : (expand macros (first ++ second)).value =
      (expand macros first).value ++ (expand macros second).value := by
    rw [whole, Report.value_bind, Report.value_bind]
    rfl
  refine ⟨whole, value, ?_, fun item read refused => ?_, fun ctx item refused => ?_⟩
  · rw [whole, Report.problems_bind, Report.problems_bind]
    exact congrArg _ (List.append_nil _)
  · obtain ⟨none, problem⟩ := expand_refused read refused
    rw [value, none, List.nil_append]
    exact ⟨rfl, problem⟩
  · exact Expansion.expandItems_refused refused

/-- A call with too few arguments, one of an unknown macro, one of a macro that calls itself, one
    with a group in a group, and behind them calls that go on as if they stood alone. -/
def refusingSource : Source :=
  ⟨"text", "#define TWO X Y \x7b Y X \x7d #define SELF \x7b c SELF d \x7d " ++
    "TWO(a) NONE(a b) SELF TWO((a (b) d) TWO(b c) SELF"⟩

theorem expand_append_refusing :
    let lexed := (lex refusingSource).value
    let first := lexed.tokens.take 19
    let second := lexed.tokens.drop 19
    Expansion.NoneUnclosed (expand lexed.macros first).problems ∧ Item.Bare second ∧
      (expand lexed.macros first).problems.length = 4 ∧
      (expand lexed.macros (first ++ second)).value =
        (expand lexed.macros first).value ++ (expand lexed.macros second).value ∧
      (expand lexed.macros lexed.tokens).value.map (·.text) =
        ["c", "d", "d", "a", "b", "c", "b", "c", "d"] := by
  have facts : (∀ d ∈ (expand (lex refusingSource).value.macros
          ((lex refusingSource).value.tokens.take 19)).problems,
        d.message.toList.take 12 ≠ "unterminated".toList) ∧
      (∀ next ∈ ((lex refusingSource).value.tokens.drop 19).head?,
        next.kind ≠ .argumentsStart) ∧
      (expand (lex refusingSource).value.macros
          ((lex refusingSource).value.tokens.take 19)).problems.length = 4 ∧
      (expand (lex refusingSource).value.macros (lex refusingSource).value.tokens).value.map
        (·.text) = ["c", "d", "d", "a", "b", "c", "b", "c", "d"] := by
    decide +kernel
  obtain ⟨wordings, bare, count, texts⟩ := facts
  have closed := Expansion.noneUnclosed_of_wording wordings
  exact ⟨closed, bare, count, (expand_append closed bare).2.1, texts⟩

end NineBit.Asm

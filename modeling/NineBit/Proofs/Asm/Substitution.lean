import NineBit.Proofs.Asm.CallTree
import NineBit.Proofs.Asm.Depth
import NineBit.Proofs.Asm.Success

/-!
# Expansion as substitution

What a token sequence means depends on two things only: the macros of the program, and an
environment that binds parameters to tokens in which no call is left (`Expansion.ItemMeans`). A
parameter stands for what it is bound to. A call of a macro stands for what the macro's body means
in the environment that binds the macro's parameters to the meanings of the arguments, and nothing
else.

An expansion without problems computes this meaning (`expand_means_iff`): the chain of scopes, the
names in use and the depth leave no trace in the tokens.
-/

namespace NineBit.Asm

namespace Expansion

/-! ## Meanings -/

/-- What parameters stand for. The first entry of a name counts. -/
abbrev Environment := List (String × List Token)

/-- Parameters bound to arguments; of several parameters of one name the last one counts. -/
def Environment.bind (parameters : List String) (arguments : List (List Token)) : Environment :=
  (parameters.zip arguments).reverse

mutual

/-- What an item means. -/
inductive ItemMeans (macros : Frame) : Environment → Item → List Token → Prop where
  /-- A token that calls nothing is copied. -/
  | plain (env : Environment) (token : Token) : ItemMeans macros env (.plain token) [token]
  /-- A parameter stands for the tokens that it is bound to. -/
  | parameter {env : Environment} {head : Token} {bound : List Token}
      (found : env.lookup head.text = some bound) :
      ItemMeans macros env (.call head [] true) bound
  /-- A macro's body is expanded in an environment of its own. -/
  | call {env : Environment} {head : Token} {m : Macro} {arguments : List (List Item)}
      {bound : List (List Token)} {body : List Item} {out : List Token}
      (free : env.lookup head.text = none) (found : macros.find? head.text = some m)
      (means : ArgumentsMean macros env arguments bound)
      (count : bound.length = m.parameters.length) (grammar : Item.Sequence m.body body)
      (inner : SequenceMeans macros (.bind m.parameters bound) body out) :
      ItemMeans macros env (.call head arguments true) out
  /-- A register action is on the register that its name stands for. -/
  | register {env : Environment} {token register : Token}
      (named : ItemMeans macros env
        (.call ⟨.macroName, String.ofList (token.text.toList.drop 1), token.span⟩ [] true)
        [register])
      (kind : register.kind = .location)
      (names : (Isa.Register.ofName? register.text).isSome = true) :
      ItemMeans macros env (.register token)
        [⟨.registerAction, String.ofList (token.text.toList.take 1) ++ register.text, token.span⟩]

/-- What items mean, one after the other. -/
inductive SequenceMeans (macros : Frame) : Environment → List Item → List Token → Prop where
  | nil (env : Environment) : SequenceMeans macros env [] []
  | cons {env : Environment} {item : Item} {items : List Item} {first rest : List Token}
      (means : ItemMeans macros env item first) (later : SequenceMeans macros env items rest) :
      SequenceMeans macros env (item :: items) (first ++ rest)

/-- What arguments mean, each for itself. -/
inductive ArgumentsMean (macros : Frame) :
    Environment → List (List Item) → List (List Token) → Prop where
  | nil (env : Environment) : ArgumentsMean macros env [] []
  | cons {env : Environment} {argument : List Item} {arguments : List (List Item)}
      {first : List Token} {rest : List (List Token)}
      (means : SequenceMeans macros env argument first)
      (later : ArgumentsMean macros env arguments rest) :
      ArgumentsMean macros env (argument :: arguments) (first :: rest)

end

/-- What a token sequence means to a program with some macros. -/
def Means (macros : Frame) (tokens out : List Token) : Prop :=
  ∃ items, Item.Sequence tokens items ∧ SequenceMeans macros [] items out

section
variable {macros : Frame}

/-! ## There is one meaning -/

mutual

theorem ItemMeans.unique : ∀ {env : Environment} {item : Item} {out other : List Token},
    ItemMeans macros env item out → ItemMeans macros env item other → out = other
  | _, _, _, _, .plain env token, second => by
    cases second
    rfl
  | _, _, _, _, .parameter found, second => by
    cases second with
    | parameter same => exact Option.some.inj (found.symm.trans same)
    | call free =>
      rw [free] at found
      cases found
  | _, _, _, _, .call free found means count grammar inner, second => by
    cases second with
    | parameter same =>
      rw [free] at same
      cases same
    | call _ same others _ tree within =>
      rw [found] at same
      cases same
      have arguments := means.unique others
      subst arguments
      have body := (Item.sequence_iff.1 grammar).symm.trans (Item.sequence_iff.1 tree)
      subst body
      exact inner.unique within
  | _, _, _, _, .register named kind names, second => by
    cases second with
    | register same =>
      have registers := named.unique same
      cases registers
      rfl

theorem SequenceMeans.unique : ∀ {env : Environment} {items : List Item} {out other : List Token},
    SequenceMeans macros env items out → SequenceMeans macros env items other → out = other
  | _, _, _, _, .nil env, second => by
    cases second
    rfl
  | _, _, _, _, .cons means later, second => by
    cases second with
    | cons other more => rw [means.unique other, later.unique more]

theorem ArgumentsMean.unique : ∀ {env : Environment} {arguments : List (List Item)}
    {bound other : List (List Token)}, ArgumentsMean macros env arguments bound →
    ArgumentsMean macros env arguments other → bound = other
  | _, _, _, _, .nil env, second => by
    cases second
    rfl
  | _, _, _, _, .cons means later, second => by
    cases second with
    | cons other more => rw [means.unique other, later.unique more]

end

end

/-! ## Reports without problems -/

/-- A call that has been expanded: what its name stands for, and what the body has come to. -/
structure Context.Calls (ctx : Context) (name : String) (arguments : List (List Token))
    (out : List Token) (m : Macro) (home : Scope) : Prop where
  found : ctx.scope.resolve? name = some (m, home)
  fresh : name ∉ ctx.stack
  count : arguments.length = m.parameters.length
  clean : (ctx.expandBody (bindArguments m arguments home) (ctx.stack ++ [name])
    m.body).problems = []
  value : (ctx.expandBody (bindArguments m arguments home) (ctx.stack ++ [name]) m.body).value = out

section
variable {ctx : Context}

theorem problems_report (fault : ExpansionFault) (span : Span) :
    (fault.report span).problems ≠ [] := List.cons_ne_nil _ _

/-- A computation that has reported a fault has a problem. -/
theorem not_clean {α : Type} {fault : ExpansionFault} {span : Span} {next : Unit → Report α}
    (none : (fault.report span >>= next).problems = []) : False := by
  rw [Report.problems_bind, List.append_eq_nil_iff] at none
  exact problems_report fault span none.1

theorem noted_body (body : Report (List Token)) (ofProgram : Bool) (span : Option Span) :
    let noted : Report (List Token) := do
      let tokens ← body
      if ofProgram then
        Report.note s!"expands to {preview tokens}" span
      return tokens
    noted.problems = body.problems ∧ noted.value = body.value := by
  intro noted
  cases ofProgram with
  | true =>
    refine ⟨?_, ?_⟩
    · exact (Report.problems_bind _ _).trans (List.append_nil _)
    · exact Report.value_bind _ _
  | false =>
    refine ⟨?_, ?_⟩
    · exact (Report.problems_bind _ _).trans (List.append_nil _)
    · exact Report.value_bind _ _

theorem calls_of_expandCall {ofProgram : Bool} {head : Token} {arguments : List (List Token)}
    (none : (expandCall ctx ofProgram head arguments).problems = []) :
    ∃ m home, ctx.Calls head.text arguments (expandCall ctx ofProgram head arguments).value m
      home := by
  unfold expandCall at none ⊢
  dsimp only at none ⊢
  cases found : ctx.scope.resolve? head.text with
  | none =>
    rw [found] at none
    exact (not_clean none).elim
  | some bound =>
    obtain ⟨m, home⟩ := bound
    rw [found] at none
    dsimp only at none ⊢
    by_cases recursive : head.text ∈ ctx.stack
    · rw [if_pos recursive] at none
      exact (not_clean none).elim
    · by_cases count : arguments.length ≠ m.parameters.length
      · rw [if_neg recursive, if_pos count] at none
        exact (not_clean none).elim
      · rw [if_neg recursive, if_neg count] at none ⊢
        -- The notes about a call neither are problems nor change its tokens.
        have noted := noted_body (ctx.expandBody (bindArguments m arguments home)
          (ctx.stack ++ [head.text]) m.body) ofProgram (some head.span)
        refine ⟨m, home, found, recursive, not_not.1 count, ?_, ?_⟩
        · split at none
          · exact noted.1.symm.trans none
          · rw [Report.problems_bind, List.append_eq_nil_iff] at none
            exact noted.1.symm.trans none.2
        · split
          · exact noted.2.symm
          · exact noted.2.symm

theorem calls_of_expandRegister {token : Token}
    (none : (expandRegister ctx token).problems = []) :
    ∃ m home register, ctx.Calls (String.ofList (token.text.toList.drop 1)) [] [register] m home ∧
      register.kind = .location ∧ (Isa.Register.ofName? register.text).isSome = true ∧
      (expandRegister ctx token).value =
        [⟨.registerAction, String.ofList (token.text.toList.take 1) ++ register.text,
          token.span⟩] := by
  unfold expandRegister at none ⊢
  dsimp only at none ⊢
  rw [Report.problems_ask] at none
  rw [Report.value_bind]
  cases found : ctx.scope.resolve? (String.ofList (token.text.toList.drop 1)) with
  | none =>
    rw [found] at none
    exact (not_clean none).elim
  | some bound =>
    obtain ⟨m, home⟩ := bound
    rw [found] at none
    dsimp only at none ⊢
    by_cases parameters : (!m.parameters.isEmpty) = true
    · rw [if_pos parameters] at none
      exact (not_clean none).elim
    · rw [if_neg parameters] at none ⊢
      by_cases recursive : String.ofList (token.text.toList.drop 1) ∈ ctx.stack
      · rw [if_pos recursive] at none
        exact (not_clean none).elim
      · rw [if_neg recursive] at none ⊢
        rw [Report.problems_bind, List.append_eq_nil_iff] at none
        rw [Report.value_bind]
        obtain ⟨clean, rest⟩ := none
        split at rest
        · rename_i register value
          split at rest
          · rename_i names
            have same := bindArguments_nil m home
            have single : m.parameters = [] := by simpa using parameters
            refine ⟨m, home, register, ⟨found, recursive, ?_, ?_, ?_⟩, ?_, ?_, ?_⟩
            · rw [single]
              rfl
            · rw [same]
              exact clean
            · rw [same]
              exact value
            · exact of_decide_eq_true (Bool.and_eq_true_iff.1 names).1
            · exact (Bool.and_eq_true_iff.1 names).2
            · rw [if_pos names]
              rfl
          · exact (not_clean rest).elim
        · exact (not_clean rest).elim

end

/-! ## Scopes as environments -/

theorem find?_define (m : Macro) (frame : Frame) (name : String) :
    (frame.define m).find? name = if m.name = name then some m else frame.find? name := by
  induction frame with
  | nil =>
    show List.find? _ [m] = _
    rw [List.find?_singleton]
    simp only [beq_iff_eq]
    rfl
  | cons first rest ih =>
    unfold Frame.find? at ih ⊢
    unfold Frame.define
    by_cases same : first.name = m.name
    · rw [if_pos same, List.find?_cons, List.find?_cons, same]
      by_cases here : m.name = name
      · simp only [here, BEq.rfl, if_true]
      · simp only [here, beq_eq_false_iff_ne.2 here, if_false]
    · rw [if_neg same, List.find?_cons, List.find?_cons, ih]
      by_cases here : first.name = name
      · have other : m.name ≠ name := fun this => same (here.trans this.symm)
        simp only [here, BEq.rfl, other, if_false]
      · simp only [beq_eq_false_iff_ne.2 here]

/-- A scope is that of a program's macros, or of the parameters of a macro inside that; the
    parameters are bound to plain tokens. -/
structure Sees (macros : Frame) (env : Environment) (scope : Scope) : Prop where
  frames : scope = [macros] ∧ env = [] ∨ ∃ frame : Frame, scope = [frame, macros] ∧
    ∀ name, frame.find? name = (env.lookup name).map fun bound => ⟨name, [], bound, none⟩
  plain : ∀ name bound, env.lookup name = some bound → ∀ token ∈ bound, token.Plain

namespace Sees

variable {macros : Frame} {env : Environment} {scope : Scope} {name : String}

theorem root (macros : Frame) : Sees macros [] [macros] :=
  ⟨.inl ⟨rfl, rfl⟩, fun _ _ none => nomatch none⟩

theorem parameter (sees : Sees macros env scope) {bound : List Token}
    (found : env.lookup name = some bound) :
    scope.resolve? name = some (⟨name, [], bound, none⟩, scope) := by
  rcases sees.frames with ⟨-, rfl⟩ | ⟨frame, rfl, finds⟩
  · cases found
  · have first := finds name
    rw [found] at first
    unfold Scope.resolve?
    rw [first]
    rfl

theorem macros_of_free (sees : Sees macros env scope) (free : env.lookup name = none) :
    scope.resolve? name = (macros.find? name).map fun m => (m, [macros]) := by
  have outer : Scope.resolve? name [macros] = (macros.find? name).map fun m => (m, [macros]) := by
    unfold Scope.resolve?
    cases macros.find? name <;> rfl
  rcases sees.frames with ⟨rfl, -⟩ | ⟨frame, rfl, finds⟩
  · exact outer
  · have first := finds name
    rw [free] at first
    unfold Scope.resolve?
    rw [first]
    exact outer

/-- Parameters are defined one after the other in the frame of a body. -/
theorem defines (macros : Frame) (pairs : List (String × List Token)) : ∀ (frame : Frame)
    (env : Environment),
    (∀ name, frame.find? name = (env.lookup name).map fun bound => ⟨name, [], bound, none⟩) →
    ∃ last : Frame,
      pairs.foldl (fun scope bound => Scope.define ⟨bound.1, [], bound.2, none⟩ scope)
        [frame, macros] = [last, macros] ∧
      ∀ name, last.find? name =
        ((pairs.reverse ++ env).lookup name).map fun bound => ⟨name, [], bound, none⟩ := by
  induction pairs with
  | nil => exact fun frame env finds => ⟨frame, rfl, finds⟩
  | cons pair rest ih =>
    intro frame env finds
    obtain ⟨last, same, found⟩ := ih (frame.define ⟨pair.1, [], pair.2, none⟩) (pair :: env)
      fun name => by
        rw [find?_define, finds, List.lookup_cons]
        by_cases here : pair.1 = name
        · subst here
          rw [if_pos rfl, BEq.rfl]
          rfl
        · rw [if_neg here, beq_eq_false_iff_ne.2 (Ne.symm here)]
    refine ⟨last, same, fun name => ?_⟩
    rw [found, List.reverse_cons, List.append_assoc]
    rfl

/-- A body sees its parameters and the macros of the program, and nothing of its caller. -/
theorem bind (macros : Frame) (m : Macro) {arguments : List (List Token)}
    (plain : ∀ argument ∈ arguments, ∀ token ∈ argument, token.Plain) :
    Sees macros (.bind m.parameters arguments) (bindArguments m arguments [macros]) := by
  refine ⟨.inr ?_, fun name bound found => ?_⟩
  · obtain ⟨frame, same, finds⟩ := defines macros (m.parameters.zip arguments) [] []
      fun _ => rfl
    rw [List.append_nil] at finds
    exact ⟨frame, same, finds⟩
  · obtain ⟨before, after, split, -⟩ := List.lookup_eq_some_iff.1 found
    have member : (name, bound) ∈ Environment.bind m.parameters arguments := by
      rw [split]
      exact List.mem_append_right _ List.mem_cons_self
    exact plain bound (List.of_mem_zip (List.mem_reverse.1 member)).2

end Sees

/-! ## Expansion computes the meaning -/

/-- A register action has a text: it begins with the operation, and an empty text has none. A source
    text has no other register actions (`operates_of_known`). -/
def Operates (token : Token) : Prop := token.kind = .registerAction → token.text ≠ ""

theorem keeps_operates : Keeps Operates := by
  intro token register operates kind names
  cases text : token.text.toList with
  | nil => exact absurd (String.toList_eq_nil_iff.1 text) (operates kind)
  | cons c operand =>
    refine ⟨fun _ none => ?_, text ▸ plain_onRegister text names⟩
    have written := toList_onRegister token register text
    rw [text] at written
    have empty : String.ofList ((c :: operand).take 1) ++ register.text = "" := none
    rw [empty] at written
    cases written

/-- Plain tokens are not changed. -/
theorem expandTokens_plain (depth : Nat) (ofProgram : Bool) (scope : Scope) (stack : List String)
    {tokens : List Token} (plain : ∀ token ∈ tokens, token.Plain) :
    expandTokens (depth + 1) ofProgram scope stack tokens = pure tokens := by
  have copies (ctx : Context) (tokens : List Token) : ∀ before : List Token,
      expandItems ctx ofProgram before (tokens.map Item.plain) =
        pure (before.reverse ++ tokens) := by
    induction tokens with
    | nil =>
      intro before
      rw [List.append_nil]
      rfl
    | cons token rest ih =>
      intro before
      have later := ih (token :: before)
      rw [List.reverse_cons, List.append_assoc] at later
      exact later
  unfold expandTokens
  rw [Item.sequence_iff.1 (Item.sequence_plain plain)]
  exact copies _ tokens []

/-- Bodies that are expanded at some depth without a problem come to their meaning. -/
def BodiesMean (macros : Frame) (known : List String) (depth : Nat) : Prop :=
  ∀ {env : Environment} {scope : Scope} {stack : List String} (ofProgram : Bool)
    {tokens : List Token}, Nested known depth scope stack → Sees macros env scope →
    scope.All (Macro.All Operates) → (∀ token ∈ tokens, Operates token) →
    (expandTokens depth ofProgram scope stack tokens).problems = [] →
    ∃ items, Item.Sequence tokens items ∧
      SequenceMeans macros env items (expandTokens depth ofProgram scope stack tokens).value

section
variable {macros : Frame} {known : List String} {depth : Nat} {env : Environment} {scope : Scope}
  {stack : List String}

/-- A call whose arguments mean what they have been expanded to. -/
theorem itemMeans_of_calls (bodies : BodiesMean macros known depth)
    (nested : Nested known (depth + 1) scope stack) (sees : Sees macros env scope)
    (all : scope.All (Macro.All Operates)) (head : Token) {items : List (List Item)}
    {arguments : List (List Token)} {out : List Token} {m : Macro} {home : Scope}
    (calls : Context.Calls ⟨scope, stack, expandTokens depth false⟩ head.text arguments out m home)
    (means : ArgumentsMean macros env items arguments)
    (given : ∀ argument ∈ arguments, ∀ token ∈ argument, Operates token ∧ token.Plain) :
    ItemMeans macros env (.call head items true) out := by
  have resolved : scope.resolve? head.text = some (m, home) := calls.found
  have inner := nested.body resolved calls.fresh arguments
  cases bound : env.lookup head.text with
  | some tokens =>
    rw [sees.parameter bound] at resolved
    cases resolved
    have none : arguments = [] := List.eq_nil_of_length_eq_zero calls.count
    subst none
    cases means
    -- The name is not being expanded, so that some depth is left for the tokens it stands for.
    obtain ⟨less, rfl⟩ := Nat.exists_eq_succ_of_ne_zero (Nat.ne_of_gt inner.pos)
    have value := calls.value
    dsimp only at value
    rw [Nat.succ_eq_add_one, expandTokens_plain less false _ _ (sees.plain _ _ bound)] at value
    have same : tokens = out := value
    rw [← same]
    exact .parameter bound
  | none =>
    rw [sees.macros_of_free bound, Option.map_eq_some_iff] at resolved
    obtain ⟨found, first, same⟩ := resolved
    cases same
    have within := all.resolve calls.found
    have visible : (bindArguments m arguments [macros]).All (Macro.All Operates) :=
      within.2.bindArguments fun _ _ argument member token inside =>
        (given argument member token inside).1
    obtain ⟨body, grammar, value⟩ := bodies false inner
      (.bind macros m fun argument member token inside => (given argument member token inside).2)
      visible within.1 calls.clean
    have same := calls.value
    dsimp only at same
    rw [same] at value
    exact .call bound first means calls.count grammar value

mutual

theorem means_expandItem (bodies : BodiesMean macros known depth)
    (nested : Nested known (depth + 1) scope stack) (sees : Sees macros env scope)
    (all : scope.All (Macro.All Operates)) (ofProgram : Bool) :
    ∀ item : Item, item.All Operates →
      (expandItem ⟨scope, stack, expandTokens depth false⟩ ofProgram item).problems = [] →
      ItemMeans macros env item
        (expandItem ⟨scope, stack, expandTokens depth false⟩ ofProgram item).value
  | .plain token, _, _ => .plain env token
  | .register token, _, clean => by
    unfold expandItem at clean ⊢
    rw [Report.problems_nested] at clean
    obtain ⟨m, home, register, calls, kind, names, value⟩ := calls_of_expandRegister clean
    rw [Report.value_nested, value]
    have named := itemMeans_of_calls bodies nested sees all
      ⟨.macroName, String.ofList (token.text.toList.drop 1), token.span⟩ calls (.nil env)
      fun _ member => absurd member List.not_mem_nil
    exact .register named kind names
  | .stray token, _, clean => (not_clean clean).elim
  | .nestedGroup token, _, clean => (not_clean clean).elim
  | .call head arguments closed, known, clean => by
    cases known with
    | call _ _ inside =>
      unfold expandItem at clean ⊢
      rw [Report.problems_nested, Report.problems_bind, List.append_eq_nil_iff] at clean
      rw [Report.value_nested, Report.value_bind]
      obtain ⟨bound, means, value⟩ :=
        means_expandArguments bodies nested sees all arguments [] inside clean.1
      have keeps : Context.All Operates ⟨scope, stack, expandTokens depth false⟩ :=
        ⟨all, yields_expandTokens keeps_operates depth false⟩
      have given := all_expandArguments keeps_operates keeps arguments [] inside
        fun _ member => absurd member List.not_mem_nil
      have called := clean.2
      rw [value] at given called ⊢
      cases closed with
      | false => exact (not_clean called).elim
      | true =>
        obtain ⟨m, home, calls⟩ := calls_of_expandCall called
        exact itemMeans_of_calls bodies nested sees all head calls means given

theorem means_expandItems (bodies : BodiesMean macros known depth)
    (nested : Nested known (depth + 1) scope stack) (sees : Sees macros env scope)
    (all : scope.All (Macro.All Operates)) (ofProgram : Bool) :
    ∀ (items : List Item) (tokens : List Token), (∀ item ∈ items, item.All Operates) →
      (expandItems ⟨scope, stack, expandTokens depth false⟩ ofProgram tokens items).problems = [] →
      ∃ out, SequenceMeans macros env items out ∧
        (expandItems ⟨scope, stack, expandTokens depth false⟩ ofProgram tokens items).value =
          tokens.reverse ++ out
  | [], tokens, _, _ => ⟨[], .nil env, (List.append_nil _).symm⟩
  | item :: rest, tokens, known, clean => by
    unfold expandItems at clean ⊢
    rw [Report.problems_bind, List.append_eq_nil_iff] at clean
    rw [Report.value_bind]
    have first := means_expandItem bodies nested sees all ofProgram item
      (known item List.mem_cons_self) clean.1
    obtain ⟨out, later, value⟩ := means_expandItems bodies nested sees all ofProgram rest _
      (fun other member => known other (List.mem_cons_of_mem _ member)) clean.2
    refine ⟨_, .cons first later, ?_⟩
    rw [value, List.reverse_append, List.reverse_reverse, List.append_assoc]

theorem means_expandArguments (bodies : BodiesMean macros known depth)
    (nested : Nested known (depth + 1) scope stack) (sees : Sees macros env scope)
    (all : scope.All (Macro.All Operates)) :
    ∀ (arguments : List (List Item)) (before : List (List Token)),
      (∀ argument ∈ arguments, ∀ item ∈ argument, item.All Operates) →
      (expandArguments ⟨scope, stack, expandTokens depth false⟩ before arguments).problems = [] →
      ∃ bound, ArgumentsMean macros env arguments bound ∧
        (expandArguments ⟨scope, stack, expandTokens depth false⟩ before arguments).value =
          before.reverse ++ bound
  | [], before, _, _ => ⟨[], .nil env, (List.append_nil _).symm⟩
  | argument :: rest, before, known, clean => by
    unfold expandArguments at clean ⊢
    rw [Report.problems_bind, List.append_eq_nil_iff] at clean
    rw [Report.value_bind]
    obtain ⟨out, first, value⟩ := means_expandItems bodies nested sees all false argument []
      (known argument List.mem_cons_self) clean.1
    have rest_clean := clean.2
    rw [value] at rest_clean ⊢
    obtain ⟨bound, later, values⟩ := means_expandArguments bodies nested sees all rest _
      (fun other member => known other (List.mem_cons_of_mem _ member)) rest_clean
    refine ⟨_, .cons first later, ?_⟩
    rw [values, List.reverse_cons, List.append_assoc]
    rfl

end

end

/-- At any depth, bodies come to their meaning. -/
theorem bodiesMean (macros : Frame) (known : List String) (depth : Nat) :
    BodiesMean macros known depth := by
  induction depth with
  | zero =>
    intro env scope stack ofProgram tokens nested
    exact absurd nested.pos (Nat.lt_irrefl 0)
  | succ depth ih =>
    intro env scope stack ofProgram tokens nested sees all operates clean
    obtain ⟨out, means, value⟩ := means_expandItems ih nested sees all ofProgram
      (Item.ofTokens tokens) [] (Item.all_ofTokens operates) clean
    refine ⟨Item.ofTokens tokens, Item.sequence_iff.2 rfl, ?_⟩
    have same : (expandTokens (depth + 1) ofProgram scope stack tokens).value = out := value
    rw [same]
    exact means

end Expansion

/-- An expansion without problems gives the meaning of the tokens. -/
theorem expand_means_iff {macros : Frame} {tokens : List Token}
    (bodies : ∀ m ∈ macros, m.All Expansion.Operates)
    (operates : ∀ token ∈ tokens, Expansion.Operates token)
    (clean : (expand macros tokens).problems = []) (out : List Token) :
    Expansion.Means macros tokens out ↔ (expand macros tokens).value = out := by
  have all : Scope.All (Macro.All Expansion.Operates) [macros] := by
    intro frame member
    rw [List.mem_singleton.1 member]
    exact bodies
  obtain ⟨items, grammar, means⟩ := Expansion.bodiesMean macros (Expansion.names macros) _ true
    (.root macros (Nat.lt_succ_self _)) (.root macros) all operates clean
  constructor
  · rintro ⟨other, sequence, meaning⟩
    have same := (Item.sequence_iff.1 sequence).symm.trans (Item.sequence_iff.1 grammar)
    subst same
    exact means.unique meaning
  · rintro rfl
    exact ⟨items, grammar, means⟩

/-- In a source text, every register action has an operation. -/
theorem operates_of_known {token : Token} (known : token.Known) : Expansion.Operates token := by
  intro kind none
  have spelt := known.registerAction kind
  rw [none] at spelt
  cases spelt

/-- A parameter that hides a macro, an argument that calls what it hides, a group with a call that
    expands to nothing, and a register action on a parameter. -/
def hidingSource : Source :=
  ⟨"text", "#define NIL \x7b\x7d #define X \x7b c \x7d #define INC R \x7b +R \x7d " ++
    "#define PAIR X Y \x7b Y X \x7d PAIR((X NIL) INC(d)) X"⟩

theorem expand_means_iff_hiding :
    let lexed := (lex hidingSource).value
    (expand lexed.macros lexed.tokens).value.map (·.text) = ["+d", "c", "c"] ∧
      ∀ out, Expansion.Means lexed.macros lexed.tokens out ↔
        (expand lexed.macros lexed.tokens).value = out := by
  intro lexed
  obtain ⟨tokens, macros⟩ := known_lex hidingSource
  have bodies : ∀ m ∈ lexed.macros, m.All Expansion.Operates := fun m member token inside =>
    operates_of_known (macros m member token inside)
  have operates : ∀ token ∈ lexed.tokens, Expansion.Operates token := fun token member =>
    operates_of_known (tokens token member)
  have clean : (expand lexed.macros lexed.tokens).problems = [] := by decide +kernel
  exact ⟨by decide +kernel, expand_means_iff bodies operates clean⟩

end NineBit.Asm

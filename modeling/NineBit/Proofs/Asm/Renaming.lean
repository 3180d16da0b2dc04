import NineBit.Proofs.Asm.Rewriting
import NineBit.Proofs.Asm.Substitution

/-!
# Renaming a parameter

The name of a parameter is bound: with another name for it, in the header and in the body of its
macro, a program is expanded to the same tokens, and problems are found in the same places. The
expansions of the two programs go side by side, and what the names of one body stand for is the same
wherever a scope binds them (`Expansion.Follows`).

There is one exception (`Expansion.Confuses`): recursion is found by the names alone, so that a
parameter with the name of a macro that is being expanded is reported where it is called. A new name
that no macro has cannot be confused with one.
-/

namespace NineBit

/-! ## Reports side by side -/

namespace Report

variable {α β : Type} {C : Diagnostic → Prop}

/-- Two reports of one value, with problems in the same places. -/
structure Matches (r other : Report α) : Prop where
  value : other.value = r.value
  places : other.problems.map (·.span) = r.problems.map (·.span)

/-- The second report matches the first, unless that has a problem of some kind. -/
def Simulates (C : Diagnostic → Prop) (r other : Report α) : Prop :=
  (∃ d ∈ r.problems, C d) ∨ r.Matches other

namespace Simulates

theorem refl (r : Report α) : Simulates C r r := .inr ⟨rfl, rfl⟩

theorem bind {r other : Report α} {f g : α → Report β} (first : Simulates C r other)
    (rest : Simulates C (f r.value) (g r.value)) : Simulates C (r >>= f) (other >>= g) := by
  unfold Simulates
  rw [problems_bind]
  rcases first with ⟨d, member, kind⟩ | first
  · exact .inl ⟨d, List.mem_append_left _ member, kind⟩
  rcases rest with ⟨d, member, kind⟩ | rest
  · exact .inl ⟨d, List.mem_append_right _ member, kind⟩
  refine .inr ⟨?_, ?_⟩
  · rw [value_bind, value_bind, first.value, rest.value]
  · rw [problems_bind, problems_bind, first.value, List.map_append, List.map_append, first.places,
      rest.places]

theorem ask {r other : Unit → Report α} (d made : Demand) (rest : Simulates C (r ()) (other ())) :
    Simulates C (Report.ask d >>= r) (Report.ask made >>= other) :=
  .bind (.inr ⟨rfl, rfl⟩) rest

theorem nested {r other : Unit → Report α} (inner : Simulates C (r ()) (other ())) :
    Simulates C (Report.nested r) (Report.nested other) := by
  unfold Simulates
  rw [problems_nested]
  refine inner.imp_right fun same => ⟨?_, ?_⟩
  · rw [value_nested, value_nested, same.value]
  · rw [problems_nested, problems_nested, same.places]

end Simulates

end Report

namespace Asm

theorem ExpansionFault.simulates_report {C : Diagnostic → Prop} (fault other : ExpansionFault)
    (span : Span) : Report.Simulates C (fault.report span) (other.report span) :=
  .inr ⟨rfl, rfl⟩

/-- What cannot be expanded is reported and dropped. -/
theorem ExpansionFault.simulates_drop {C : Diagnostic → Prop} (fault other : ExpansionFault)
    (span : Span) :
    Report.Simulates C (do fault.report span; return ([] : List Token))
      (do other.report span; return []) :=
  .bind (simulates_report fault other span) (.refl _)

/-! ## Renaming -/

/-- The token with a name in the place of another, where it calls that. -/
def Token.rename (old new : String) (token : Token) : Token :=
  if token.callee? = some old then token.calling new else token

/-- The macro with another name for one of its parameters. -/
def Macro.renameParameter (m : Macro) (old new : String) : Macro :=
  { m with
    parameters := m.parameters.map fun x => if x = old then new else x
    body := m.body.map (Token.rename old new) }

/-- A parameter of a macro can have another name: one that no macro and no other parameter has, that
    the body does not call, and that is no register. -/
structure Renamable (macros : Frame) (m : Macro) (old new : String) : Prop where
  defined : macros.find? m.name = some m
  parameter : old ∈ m.parameters
  unused : macros.find? new = none
  others : new ∈ m.parameters → new = old
  absent : ∀ token ∈ m.body, token.callee? ≠ some new
  name : Isa.Register.ofName? new = none

namespace Expansion

/-! ## Expansions side by side -/

/-- The fault of a token that calls a name which is being expanded. -/
def recursion (token : Token) (name : String) (stack : List String) : ExpansionFault :=
  match token.kind with
  | .macroName => .recursiveCall name (stack ++ [name])
  | _ => .recursiveRegister name

/-- What a name and another one in its place come to in two contexts. -/
inductive Meets (C : Diagnostic → Prop) (ctx other : Context) (token : Token)
    (name another : String) : Prop where
  /-- Both stand for nothing. -/
  | unknown (free : ctx.scope.resolve? name = none) (free' : other.scope.resolve? another = none)
  /-- Both stand for macros whose bodies are expanded alike, or are being expanded. -/
  | known {m twin : Macro} {home home' : Scope}
      (found : ctx.scope.resolve? name = some (m, home))
      (found' : other.scope.resolve? another = some (twin, home'))
      (count : twin.parameters.length = m.parameters.length)
      (recursive : another ∈ other.stack ↔ name ∈ ctx.stack)
      (bodies : name ∉ ctx.stack → ∀ arguments : List (List Token),
        arguments.length = m.parameters.length →
        (∀ argument ∈ arguments, ∀ token ∈ argument, Operates token ∧ token.Plain) →
        Report.Simulates C
          (ctx.expandBody (bindArguments m arguments home) (ctx.stack ++ [name]) m.body)
          (other.expandBody (bindArguments twin arguments home') (other.stack ++ [another])
            twin.body))
  /-- The name is taken for one that is being expanded. -/
  | confused {m : Macro} {home : Scope} (found : ctx.scope.resolve? name = some (m, home))
      (single : m.parameters = []) (recursive : name ∈ ctx.stack)
      (kind : C ⟨.expansion, (recursion token name ctx.stack).message, some token.span, none⟩)

section
variable {C : Diagnostic → Prop} {ctx other : Context} {token twin : Token} {name another : String}

theorem simulates_expandCall (recalls : token.Recalls twin name another)
    (kind : token.kind = .macroName) (meets : Meets C ctx other token name another)
    (ofProgram : Bool) {arguments : List (List Token)}
    (given : ∀ argument ∈ arguments, ∀ token ∈ argument, Operates token ∧ token.Plain) :
    Report.Simulates C (expandCall ctx ofProgram token arguments)
      (expandCall other ofProgram twin arguments) := by
  have text := Token.text_of_callee? kind recalls.callee
  have twinText := Token.text_of_callee? (recalls.kind.trans kind) recalls.other_callee
  unfold expandCall
  dsimp only
  rw [text, twinText, recalls.span]
  cases meets with
  | unknown free free' =>
    rw [free, free']
    exact ExpansionFault.simulates_drop _ _ _
  | known found found' count recursive bodies =>
    rw [found, found']
    dsimp only
    rw [count]
    by_cases stacked : name ∈ ctx.stack
    · rw [if_pos stacked, if_pos (recursive.2 stacked)]
      exact ExpansionFault.simulates_drop _ _ _
    · rw [if_neg stacked, if_neg (mt recursive.1 stacked)]
      split
      · exact ExpansionFault.simulates_drop _ _ _
      · rename_i enough
        have inner := bodies stacked arguments (not_not.1 enough) given
        -- The notes on the signature and on the expansion are no problems.
        split
        · exact .bind inner (.refl _)
        · exact .bind (.inr ⟨rfl, rfl⟩) (.bind inner (.refl _))
  | confused found single recursive clashes =>
    rw [found]
    dsimp only
    rw [if_pos recursive]
    unfold recursion at clashes
    rw [kind] at clashes
    exact .inl ⟨_, List.mem_cons_self, clashes⟩

theorem simulates_expandRegister (recalls : token.Recalls twin name another)
    (kind : token.kind = .registerAction) (meets : Meets C ctx other token name another) :
    Report.Simulates C (expandRegister ctx token) (expandRegister other twin) := by
  have operand := (Token.operand_of_callee? kind recalls.callee).2
  have twinOperand :=
    (Token.operand_of_callee? (recalls.kind.trans kind) recalls.other_callee).2
  unfold expandRegister
  refine .ask _ _ ?_
  rw [operand, twinOperand, recalls.span, recalls.operation kind]
  dsimp only
  cases meets with
  | unknown free free' =>
    rw [free, free']
    exact ExpansionFault.simulates_drop _ _ _
  | @known m twinMacro home home' found found' count recursive bodies =>
    rw [found, found']
    dsimp only
    have single : twinMacro.parameters.isEmpty = m.parameters.isEmpty := by
      rw [Bool.eq_iff_iff, List.isEmpty_iff_length_eq_zero, List.isEmpty_iff_length_eq_zero, count]
    rw [single]
    split
    · exact ExpansionFault.simulates_drop _ _ _
    · rename_i empty
      have none : m.parameters = [] := by simpa using empty
      by_cases stacked : name ∈ ctx.stack
      · rw [if_pos stacked, if_pos (recursive.2 stacked)]
        exact ExpansionFault.simulates_drop _ _ _
      · rw [if_neg stacked, if_neg (mt recursive.1 stacked)]
        have inner := bodies stacked [] (congrArg List.length none).symm fun _ member =>
          absurd member List.not_mem_nil
        rw [bindArguments_nil, bindArguments_nil] at inner
        refine .bind inner ?_
        split
        · split
          · exact .refl _
          · exact ExpansionFault.simulates_drop _ _ _
        · exact ExpansionFault.simulates_drop _ _ _
  | confused found single recursive clashes =>
    rw [found]
    dsimp only
    rw [single, if_neg (by simp), if_pos recursive]
    unfold recursion at clashes
    rw [kind] at clashes
    exact .inl ⟨_, List.mem_cons_self, clashes⟩

end

section
variable {C : Diagnostic → Prop} {R : Token → String → String → Prop} {ctx other : Context}

mutual

theorem simulates_expandItem
    (meets : ∀ token name another, R token name another → Meets C ctx other token name another)
    (keeps : ctx.All Operates) (ofProgram : Bool) :
    ∀ (item twin : Item), Item.Alike R item twin → item.All Operates →
      Report.Simulates C (expandItem ctx ofProgram item) (expandItem other ofProgram twin)
  | .plain _, _, alike, _ | .stray _, _, alike, _ | .nestedGroup _, _, alike, _ => by
    cases alike
    exact .refl _
  | .register token, _, alike, _ => by
    cases alike with
    | register kind recalls stands =>
      unfold expandItem
      refine .nested ?_
      exact simulates_expandRegister recalls kind (meets _ _ _ stands)
  | .call head arguments closed, _, alike, known => by
    cases alike with
    | call heads _ inside =>
      cases known with
      | call _ _ all =>
        obtain ⟨kind, name, another, recalls, stands⟩ := heads
        have given := all_expandArguments keeps_operates keeps arguments [] all
          fun _ member => absurd member List.not_mem_nil
        have called := simulates_expandCall recalls kind (meets _ _ _ stands) ofProgram given
        unfold expandItem
        refine .nested ?_
        refine .bind (simulates_expandArguments meets keeps arguments _ [] inside all) ?_
        rw [recalls.span]
        dsimp only
        split
        · exact called
        · exact .bind (ExpansionFault.simulates_report _ _ _) called

theorem simulates_expandItems
    (meets : ∀ token name another, R token name another → Meets C ctx other token name another)
    (keeps : ctx.All Operates) (ofProgram : Bool) :
    ∀ (items twins : List Item) (tokens : List Token), List.Forall₂ (Item.Alike R) items twins →
      (∀ item ∈ items, item.All Operates) →
      Report.Simulates C (expandItems ctx ofProgram tokens items)
        (expandItems other ofProgram tokens twins)
  | [], _, _, alike, _ => by
    cases alike
    exact .refl _
  | item :: rest, _, tokens, alike, known => by
    cases alike with
    | cons first later =>
      unfold expandItems
      exact .bind (simulates_expandItem meets keeps ofProgram item _ first
        (known item List.mem_cons_self)) (simulates_expandItems meets keeps ofProgram rest _ _ later
          fun other member => known other (List.mem_cons_of_mem _ member))

theorem simulates_expandArguments
    (meets : ∀ token name another, R token name another → Meets C ctx other token name another)
    (keeps : ctx.All Operates) :
    ∀ (arguments twins : List (List Item)) (done : List (List Token)),
      List.Forall₂ (List.Forall₂ (Item.Alike R)) arguments twins →
      (∀ argument ∈ arguments, ∀ item ∈ argument, item.All Operates) →
      Report.Simulates C (expandArguments ctx done arguments) (expandArguments other done twins)
  | [], _, _, alike, _ => by
    cases alike
    exact .refl _
  | argument :: rest, _, done, alike, known => by
    cases alike with
    | cons first later =>
      unfold expandArguments
      exact .bind (simulates_expandItems meets keeps false argument _ [] first
        (known argument List.mem_cons_self)) (simulates_expandArguments meets keeps rest _ _ later
          fun other member => known other (List.mem_cons_of_mem _ member))

end

end

/-! ## Bound names -/

section
variable {macros : Frame} {m : Macro} {old new : String}

/-- A parameter that has been taken for a macro that is being expanded: the body calls it, and what
    is reported there is recursion. -/
def Confuses (macros : Frame) (m : Macro) (old : String) (d : Diagnostic) : Prop :=
  ∃ token ∈ m.body, token.callee? = some old ∧
    ∃ stack : List String, old ∈ stack ∧ (∀ name ∈ stack, (macros.find? name).isSome = true) ∧
      d = ⟨.expansion, (recursion token old stack).message, some token.span, none⟩

/-- A name and the one in its place are bound to the same, in environments before and after the
    renaming. They are different for the parameter only. -/
structure Follows (m : Macro) (old new : String) (env renamed : Environment) (token : Token)
    (name another : String) : Prop where
  lookup : renamed.lookup another = env.lookup name
  name : another = name ∨ name = old ∧ another = new ∧ token ∈ m.body ∧
    token.callee? = some old ∧ (env.lookup old).isSome = true

/-- A key that a map of keys mixes up with no other one is found where it was. -/
theorem lookup_map {f : String → String} {name : String} : ∀ {env : Environment},
    (∀ bound ∈ env, f bound.1 = f name → bound.1 = name) →
    List.lookup (f name) (env.map (Prod.map f id)) = env.lookup name
  | [], _ => rfl
  | (key, tokens) :: rest, apart => by
    have later := lookup_map fun bound member => apart bound (List.mem_cons_of_mem _ member)
    rw [List.map_cons, List.lookup_cons, List.lookup_cons, later]
    by_cases same : name = key
    · subst same
      rw [Prod.map_apply, BEq.rfl, BEq.rfl]
      rfl
    · have other : f name ≠ f key := fun equal =>
        same (apart (key, tokens) List.mem_cons_self equal.symm).symm
      rw [Prod.map_apply, beq_eq_false_iff_ne.2 same, beq_eq_false_iff_ne.2 other]

theorem mem_bind {parameters : List String} {arguments : List (List Token)}
    {bound : String × List Token} (member : bound ∈ Environment.bind parameters arguments) :
    bound.1 ∈ parameters :=
  (List.of_mem_zip (List.mem_reverse.1 member)).1

theorem isSome_lookup_bind {parameters : List String} {arguments : List (List Token)}
    (member : old ∈ parameters) (count : arguments.length = parameters.length) :
    ((Environment.bind parameters arguments).lookup old).isSome = true := by
  have keys : (parameters.zip arguments).map Prod.fst = parameters :=
    List.map_fst_zip (Nat.le_of_eq count.symm)
  rw [← keys] at member
  obtain ⟨bound, inside, rfl⟩ := List.mem_map.1 member
  cases found : (Environment.bind parameters arguments).lookup bound.1 with
  | some tokens => rfl
  | none =>
    have apart := List.lookup_eq_none_iff.1 found bound (List.mem_reverse.2 inside)
    rw [bne_self_eq_false] at apart
    cases apart

/-- The environments of the macro's body. -/
theorem lookup_renameParameter (renamable : Renamable macros m old new)
    (arguments : List (List Token)) {name : String} (other : name ≠ new) :
    (Environment.bind (m.renameParameter old new).parameters arguments).lookup
        (if name = old then new else name) =
      (Environment.bind m.parameters arguments).lookup name := by
  unfold Environment.bind Macro.renameParameter
  dsimp only
  rw [List.zip_map_left, ← List.map_reverse]
  refine lookup_map (f := fun x => if x = old then new else x) fun bound member same => ?_
  have parameter := mem_bind member
  by_cases first : bound.1 = old
  · rw [if_pos first] at same
    by_cases second : name = old
    · exact first.trans second.symm
    · rw [if_neg second] at same
      exact absurd same.symm other
  · rw [if_neg first] at same
    by_cases second : name = old
    · rw [if_pos second] at same
      exact absurd (same.trans (renamable.others (same ▸ parameter))) first
    · rw [if_neg second] at same
      exact same

/-- A token that operates calls the name that is put into it. -/
theorem recalls_calling {token : Token} {name another : String}
    (calls : token.callee? = some name) (operates : Operates token)
    (free : Isa.Register.ofName? another = none) :
    token.Recalls (token.calling another) name another := by
  rcases Token.callee?_eq_some calls with ⟨kind, -⟩ | ⟨kind, -⟩
  · have same : token.calling another = { token with text := another } := by
      unfold Token.calling
      rw [kind]
    rw [same]
    refine ⟨rfl, rfl, fun register => ?_, calls, ?_⟩
    · rw [kind] at register
      cases register
    · unfold Token.callee?
      dsimp only
      rw [kind]
  · cases letters : token.text.toList with
    | nil => exact absurd (String.toList_eq_nil_iff.1 letters) (operates kind)
    | cons c operand =>
      have same : token.calling another =
          { token with text := String.ofList (token.text.toList.take 1) ++ another } := by
        unfold Token.calling
        rw [kind]
      have written := toList_onRegister token ⟨.location, another, token.span⟩ letters
      dsimp only at written
      rw [same]
      refine ⟨rfl, rfl, fun _ => ?_, calls, ?_⟩
      · dsimp only
        rw [written, letters]
        rfl
      · unfold Token.callee? Item.Reader.namesRegister
        dsimp only
        rw [kind, written, List.drop_succ_cons, List.drop_zero, String.ofList_toList, free]
        rfl

/-- In one environment every name follows itself. -/
theorem rewrites_self (m : Macro) (old new : String) (env : Environment) (token : Token) :
    Token.Rewrites (Follows m old new env env) token token := by
  cases calls : token.callee? with
  | none => exact .same calls
  | some name => exact .call (.refl calls) ⟨rfl, .inl rfl⟩

theorem rewrites_rename (renamable : Renamable macros m old new) {arguments : List (List Token)}
    (count : arguments.length = m.parameters.length) {token : Token} (member : token ∈ m.body)
    (operates : Operates token) :
    Token.Rewrites (Follows m old new (.bind m.parameters arguments)
      (.bind (m.renameParameter old new).parameters arguments)) token (token.rename old new) := by
  unfold Token.rename
  cases calls : token.callee? with
  | none => exact .same calls
  | some name =>
    have other : name ≠ new := fun same => renamable.absent token member (same ▸ calls)
    have lookup := lookup_renameParameter renamable arguments other
    by_cases same : name = old
    · subst same
      rw [if_pos rfl] at lookup ⊢
      exact .call (recalls_calling calls operates renamable.name)
        ⟨lookup, .inr ⟨rfl, rfl, member, calls, isSome_lookup_bind renamable.parameter count⟩⟩
    · rw [if_neg same] at lookup
      rw [if_neg fun this => same (Option.some.inj this)]
      exact .call (.refl calls) ⟨lookup, .inl rfl⟩

/-! ## The whole expansion -/

theorem name_renameParameter (m : Macro) (old new : String) :
    (m.renameParameter old new).name = m.name := rfl

/-- The macros after the renaming. -/
theorem find?_renameParameter (renamable : Renamable macros m old new) (name : String) :
    Frame.find? (Frame.define (m.renameParameter old new) macros) name =
      (macros.find? name).map fun found =>
        if m.name = name then m.renameParameter old new else found := by
  rw [find?_define, name_renameParameter]
  by_cases same : m.name = name
  · subst same
    rw [renamable.defined, if_pos rfl, Option.map_some, if_pos rfl]
  · rw [if_neg same]
    cases macros.find? name with
    | none => rfl
    | some found => rw [Option.map_some, if_neg same]

theorem count_renameParameter (renamable : Renamable macros m old new) {name : String}
    {found : Macro} (same : macros.find? name = some found) :
    (if m.name = name then m.renameParameter old new else found).parameters.length =
      found.parameters.length := by
  split
  · rename_i here
    subst here
    obtain rfl : m = found := Option.some.inj (renamable.defined.symm.trans same)
    exact List.length_map _
  · rfl

theorem length_names_renameParameter : ∀ {macros : Frame}, macros.find? m.name = some m →
    (names (Frame.define (m.renameParameter old new) macros)).length = (names macros).length
  | [], found => nomatch found
  | first :: rest, found => by
    unfold Frame.find? at found
    unfold Frame.define
    rw [List.find?_cons] at found
    by_cases same : first.name = m.name
    · rw [same, BEq.rfl] at found
      obtain rfl : first = m := Option.some.inj found
      rw [name_renameParameter, if_pos rfl]
      unfold names Macro.renameParameter
      simp only [List.flatMap_cons, List.length_append, List.length_cons, List.length_map]
    · rw [beq_eq_false_iff_ne.2 same] at found
      have later : (names (Frame.define (m.renameParameter old new) rest)).length =
          (names rest).length := length_names_renameParameter found
      unfold names at later ⊢
      rw [name_renameParameter, if_neg same, List.flatMap_cons, List.flatMap_cons,
        List.length_append, List.length_append, later]

/-- Two places of an expansion side by side, where the same names are being expanded. -/
structure Twins (macros : Frame) (m : Macro) (old new : String) (depth : Nat)
    (env renamed : Environment) (scope twin : Scope) (stack : List String) : Prop where
  nested : Nested (names macros) depth scope stack
  sees : Sees macros env scope
  sees_twin : Sees (Frame.define (m.renameParameter old new) macros) renamed twin
  macros : ∀ name ∈ stack, (macros.find? name).isSome = true
  operates : scope.All (Macro.All Operates)

/-- Bodies are expanded side by side at some depth. -/
def BodiesSimulate (macros : Frame) (m : Macro) (old new : String) (depth : Nat) : Prop :=
  ∀ {env renamed : Environment} {scope twin : Scope} {stack : List String} (ofProgram : Bool)
    {tokens others : List Token}, Twins macros m old new depth env renamed scope twin stack →
    List.Forall₂ (Token.Rewrites (Follows m old new env renamed)) tokens others →
    (∀ token ∈ tokens, Operates token) →
    Report.Simulates (Confuses macros m old) (expandTokens depth ofProgram scope stack tokens)
      (expandTokens depth ofProgram twin stack others)

/-- The body of a macro, renamed if it is the one. -/
theorem rewrites_body (renamable : Renamable macros m old new) {arguments : List (List Token)}
    {found : Macro} {name : String} (same : macros.find? name = some found)
    (count : arguments.length = found.parameters.length) (operates : found.All Operates) :
    let twin := if m.name = name then m.renameParameter old new else found
    List.Forall₂ (Token.Rewrites (Follows m old new (.bind found.parameters arguments)
      (.bind twin.parameters arguments))) found.body twin.body := by
  intro twin
  by_cases here : m.name = name
  · subst here
    obtain rfl : m = found := Option.some.inj (renamable.defined.symm.trans same)
    have renamed : twin = m.renameParameter old new := if_pos rfl
    rw [renamed]
    exact List.forall₂_map_right_iff.2 (List.forall₂_same.2 fun token member =>
      rewrites_rename renamable count member (operates token member))
  · have kept : twin = found := if_neg here
    rw [kept]
    exact List.forall₂_same.2 fun token _ => rewrites_self m old new _ token

/-- A name and the one in its place come to the same, or a parameter is confused with a macro. -/
theorem meets_of_follows (renamable : Renamable macros m old new) {depth : Nat}
    (bodies : BodiesSimulate macros m old new depth) {env renamed : Environment}
    {scope twin : Scope} {stack : List String}
    (twins : Twins macros m old new (depth + 1) env renamed scope twin stack) {token : Token}
    {name another : String} (follows : Follows m old new env renamed token name another) :
    Meets (Confuses macros m old) ⟨scope, stack, expandTokens depth false⟩
      ⟨twin, stack, expandTokens depth false⟩ token name another := by
  cases bound : env.lookup name with
  | some tokens =>
    have found := twins.sees.parameter bound
    have foundTwin := twins.sees_twin.parameter (follows.lookup.trans bound)
    -- Nothing is called in what a parameter stands for.
    have expands (fresh : name ∉ stack) (arguments : List (List Token)) :
        ∃ less, depth = less + 1 :=
      Nat.exists_eq_succ_of_ne_zero (Nat.ne_of_gt (twins.nested.body found fresh arguments).pos)
    have plain := twins.sees.plain _ _ bound
    have known (recursive : another ∈ stack ↔ name ∈ stack) :
        Meets (Confuses macros m old) ⟨scope, stack, expandTokens depth false⟩
          ⟨twin, stack, expandTokens depth false⟩ token name another := by
      refine .known found foundTwin rfl recursive fun fresh arguments count _ => ?_
      obtain ⟨less, rfl⟩ := expands fresh arguments
      dsimp only
      rw [expandTokens_plain less false _ _ plain, expandTokens_plain less false _ _ plain]
      exact .refl _
    rcases follows.name with rfl | ⟨rfl, rfl, member, calls, -⟩
    · exact known Iff.rfl
    · have unused : another ∉ stack := fun stacked => by
        have some := twins.macros another stacked
        rw [renamable.unused] at some
        cases some
      by_cases stacked : name ∈ stack
      · exact .confused found rfl stacked ⟨token, member, calls, stack, stacked, twins.macros, rfl⟩
      · exact known (iff_of_false unused stacked)
  | none =>
    obtain rfl : another = name := by
      rcases follows.name with same | ⟨rfl, -, -, -, some⟩
      · exact same
      · rw [bound] at some
        cases some
    have found := twins.sees.macros_of_free bound
    have foundTwin := twins.sees_twin.macros_of_free (follows.lookup.trans bound)
    rw [find?_renameParameter renamable] at foundTwin
    cases same : macros.find? another with
    | none =>
      rw [same] at found foundTwin
      exact .unknown found foundTwin
    | some own =>
      rw [same] at found foundTwin
      have within := twins.operates.resolve found
      refine .known found foundTwin ?_ Iff.rfl fun fresh arguments count given => ?_
      · exact count_renameParameter renamable same
      · have plain argument (member : argument ∈ arguments) token inside :=
          (given argument member token inside).2
        refine bodies false ⟨twins.nested.body found fresh arguments, .bind macros own plain,
          .bind _ _ plain, fun name member => ?_, ?_⟩
          (rewrites_body renamable same count within.1) within.1
        · rcases List.mem_append.1 member with old | new
          · exact twins.macros name old
          · rw [List.mem_singleton.1 new, same]
            rfl
        · exact within.2.bindArguments fun _ _ argument member token inside =>
            (given argument member token inside).1

theorem bodiesSimulate (renamable : Renamable macros m old new) (depth : Nat) :
    BodiesSimulate macros m old new depth := by
  induction depth with
  | zero =>
    intro env renamed scope twin stack ofProgram tokens others twins
    exact absurd twins.nested.pos (Nat.lt_irrefl 0)
  | succ depth ih =>
    intro env renamed scope twin stack ofProgram tokens others twins rewrites operates
    exact simulates_expandItems (fun _ _ _ follows => meets_of_follows renamable ih twins follows)
      ⟨twins.operates, yields_expandTokens keeps_operates depth false⟩ ofProgram _ _ []
      (Item.alike_ofTokens rewrites) (Item.all_ofTokens operates)

end

end Expansion

/-- A parameter with another name changes neither the tokens of a program nor where problems are
    found in it, unless it is taken for a macro of its name. -/
theorem expand_renameParameter {macros : Frame} {m : Macro} {old new : String}
    (renamable : Renamable macros m old new) {tokens : List Token}
    (bodies : ∀ n ∈ macros, n.All Expansion.Operates)
    (operates : ∀ token ∈ tokens, Expansion.Operates token) :
    (∃ d ∈ (expand macros tokens).problems, Expansion.Confuses macros m old d) ∨
      (expand macros tokens).Matches
        (expand (Frame.define (m.renameParameter old new) macros) tokens) := by
  have length : (Expansion.names (Frame.define (m.renameParameter old new) macros)).length =
      (Expansion.names macros).length :=
    Expansion.length_names_renameParameter renamable.defined
  have twins : Expansion.Twins macros m old new ((Expansion.names macros).length + 1) [] []
      [macros] [Frame.define (m.renameParameter old new) macros] [] := by
    refine ⟨.root macros (Nat.lt_succ_self _), .root macros, .root _, ?_, fun frame member => ?_⟩
    · exact fun _ member => absurd member List.not_mem_nil
    · rw [List.mem_singleton.1 member]
      exact bodies
  unfold expand
  rw [length]
  exact Expansion.bodiesSimulate renamable _ true twins
    (List.forall₂_same.2 fun token _ => Expansion.rewrites_self m old new [] token) operates

/-- A parameter that hides a macro can have a name of its own. -/
theorem expand_renameParameter_hiding :
    let lexed := (lex hidingSource).value
    let m := (lexed.macros.find? "PAIR").getD ⟨"", [], [], none⟩
    Renamable lexed.macros m "X" "Z" ∧
      (expand lexed.macros lexed.tokens).Matches
        (expand (Frame.define (m.renameParameter "X" "Z") lexed.macros) lexed.tokens) := by
  intro lexed m
  obtain ⟨tokens, macros⟩ := known_lex hidingSource
  have facts : lexed.macros.find? m.name = some m ∧ "X" ∈ m.parameters ∧
      lexed.macros.find? "Z" = none ∧ ("Z" ∈ m.parameters → "Z" = "X") ∧
      ∀ token ∈ m.body, token.callee? ≠ some "Z" := by decide +kernel
  obtain ⟨defined, parameter, unused, others, absent⟩ := facts
  have renamable : Renamable lexed.macros m "X" "Z" :=
    ⟨defined, parameter, unused, others, absent, by decide⟩
  have bodies : ∀ m ∈ lexed.macros, m.All Expansion.Operates := fun m member token inside =>
    operates_of_known (macros m member token inside)
  have operates : ∀ token ∈ lexed.tokens, Expansion.Operates token := fun token member =>
    operates_of_known (tokens token member)
  have clean : (expand lexed.macros lexed.tokens).problems = [] := by decide +kernel
  refine ⟨renamable, (expand_renameParameter renamable bodies operates).resolve_left ?_⟩
  rintro ⟨d, member, -⟩
  rw [clean] at member
  exact absurd member List.not_mem_nil

/-- A parameter with the name of the macro from whose body its own macro is called. -/
example :
    let lexed := (lex ⟨"text", "#define A \x7b B(c) \x7d #define B A \x7b +A \x7d A"⟩).value
    let m := (lexed.macros.find? "B").getD ⟨"", [], [], none⟩
    let renamed := expand (Frame.define (m.renameParameter "A" "X") lexed.macros) lexed.tokens
    (expand lexed.macros lexed.tokens).problems.map (·.message) =
        ["recursive expansion of macro 'A'"] ∧
      renamed.problems = [] ∧ renamed.value.map (·.text) = ["+c"] := by
  decide +kernel

end Asm

end NineBit

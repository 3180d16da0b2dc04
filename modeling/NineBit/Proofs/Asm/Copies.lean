import NineBit.Asm.Expansion
import NineBit.Proofs.Asm.Tokens

/-!
# What expansion copies

Expansion copies tokens and makes new ones only of register actions, so that a property of the
tokens of a program and its macros is one of the expanded tokens if such actions keep it
(`Expansion.Keeps`, `all_expand`). Expansion leaves neither names nor parentheses of macros behind,
and no register but the four that there are (`Token.Plain`).
-/

namespace NineBit.Asm

/-- A token that no expansion changes: neither a macro's name nor a parenthesis, and a register
    action only on a register. -/
structure Token.Plain (token : Token) : Prop where
  name : token.kind ≠ .macroName
  opening : token.kind ≠ .argumentsStart
  closing : token.kind ≠ .argumentsEnd
  register : token.kind = .registerAction → Item.Reader.namesRegister token = true

/-! ## Scopes -/

/-- Every macro of a scope has a property. -/
def Scope.All (P : Macro → Prop) (scope : Scope) : Prop := ∀ frame ∈ scope, ∀ m ∈ frame, P m

namespace Scope.All

variable {P : Macro → Prop} {scope home : Scope} {m : Macro}

/-- A name stands for a macro of the scope, in a part of the scope. -/
theorem resolve {name : String} : ∀ {scope : Scope}, Scope.All P scope →
    scope.resolve? name = some (m, home) → P m ∧ Scope.All P home := by
  intro scope
  induction scope with
  | nil => exact fun _ none => nomatch none
  | cons frame outer ih =>
    intro all found
    unfold Scope.resolve? at found
    split at found
    · rename_i first same
      cases found
      exact ⟨all frame List.mem_cons_self m (List.mem_of_find?_eq_some same), all⟩
    · exact ih (fun frame member => all frame (List.mem_cons_of_mem _ member)) found

theorem define (first : P m) (all : Scope.All P scope) : Scope.All P (scope.define m) := by
  cases scope with
  | nil =>
    intro frame member other inside
    rw [List.mem_singleton.1 member] at inside
    rw [List.mem_singleton.1 inside]
    exact first
  | cons frame outer =>
    intro other member
    rcases List.mem_cons.1 member with rfl | later
    · intro found inside
      rcases Frame.mem_define inside with rfl | old
      · exact first
      · exact all frame List.mem_cons_self found old
    · exact all other (List.mem_cons_of_mem _ later)

theorem child (all : Scope.All P scope) : Scope.All P scope.child := by
  intro frame member
  rcases List.mem_cons.1 member with rfl | later
  · exact fun _ none => absurd none List.not_mem_nil
  · exact all frame later

/-- The scope of a body, with the arguments bound in it. -/
theorem bindArguments {arguments : List (List Token)} (all : Scope.All P home)
    (bound : ∀ x ∈ m.parameters, ∀ argument ∈ arguments, P ⟨x, [], argument, none⟩) :
    Scope.All P (Expansion.bindArguments m arguments home) := by
  have folds : ∀ (pairs : List (String × List Token)) (scope : Scope), Scope.All P scope →
      (∀ pair ∈ pairs, P ⟨pair.1, [], pair.2, none⟩) →
      Scope.All P
        (pairs.foldl (fun scope bound => scope.define ⟨bound.1, [], bound.2, none⟩) scope) := by
    intro pairs
    induction pairs with
    | nil => exact fun _ all _ => all
    | cons pair rest ih =>
      intro scope all bound
      exact ih _ (define (bound pair List.mem_cons_self) all)
        fun other later => bound other (List.mem_cons_of_mem _ later)
  refine folds _ _ all.child fun pair member => ?_
  obtain ⟨parameter, argument⟩ := List.of_mem_zip member
  exact bound pair.1 parameter pair.2 argument

end Scope.All

/-! ## Calls -/

/-- The tokens of a call tree have a property, and those that stand for themselves are plain. -/
inductive Item.All (K : Token → Prop) : Item → Prop where
  | plain {token : Token} (known : K token) (plain : token.Plain) : All K (.plain token)
  | register {token : Token} (known : K token) (kind : token.kind = .registerAction) :
      All K (.register token)
  | stray (token : Token) : All K (.stray token)
  | nestedGroup (token : Token) : All K (.nestedGroup token)
  | call (head : Token) {arguments : List (List Item)} (closed : Bool)
      (known : ∀ argument ∈ arguments, ∀ item ∈ argument, All K item) :
      All K (.call head arguments closed)

namespace Item

namespace Reader

/-- The tokens of a call whose arguments are being read have a property, and a group that is being
    read is among its arguments. -/
structure Opened.All (K : Token → Prop) (o : Opened) : Prop where
  items : ∀ argument ∈ o.arguments, ∀ item ∈ argument, item.All K
  group : o.inGroup = true → o.arguments ≠ []

/-- All tokens that have been read have a property. -/
structure All (K : Token → Prop) (r : Reader) : Prop where
  items : ∀ item ∈ r.items, item.All K
  opened : ∀ o ∈ r.opened, Opened.All K o

section
variable {K : Token → Prop}

theorem Opened.All.add {o : Opened} (known : Opened.All K o) {item : Item} (new : item.All K) :
    Opened.All K (Opened.add o item) := by
  unfold Opened.add
  split
  · rename_i group others _ same
    have items := known.items
    rw [same] at items
    refine ⟨fun argument member => ?_, fun _ => List.cons_ne_nil _ _⟩
    rcases List.mem_cons.1 member with rfl | later
    · intro other inside
      rcases List.mem_cons.1 inside with rfl | old
      · exact new
      · exact items group List.mem_cons_self other old
    · exact items argument (List.mem_cons_of_mem _ later)
  · refine ⟨fun argument member => ?_, fun _ => List.cons_ne_nil _ _⟩
    rcases List.mem_cons.1 member with rfl | later
    · intro other inside
      rw [List.mem_singleton.1 inside]
      exact new
    · exact known.items argument later

theorem Opened.All.call {o : Opened} (known : Opened.All K o) (closed : Bool) :
    (Opened.call o closed).All K := by
  refine .call o.head closed fun argument member item inside => ?_
  obtain ⟨original, old, rfl⟩ := List.mem_map.1 (List.mem_reverse.1 member)
  exact known.items original old item (List.mem_reverse.1 inside)

theorem All.add {r : Reader} (known : r.All K) {item : Item} (new : item.All K) :
    (r.add item).All K := by
  unfold Reader.add
  split
  · refine ⟨fun other member => ?_, known.opened⟩
    rcases List.mem_cons.1 member with rfl | old
    · exact new
    · exact known.items other old
  · rename_i top outer same
    refine ⟨known.items, fun o member => ?_⟩
    rcases List.mem_cons.1 member with rfl | later
    · exact (known.opened top (by rw [same]; exact List.mem_cons_self)).add new
    · exact known.opened o (by rw [same]; exact List.mem_cons_of_mem _ later)

theorem All.settle {r : Reader} (known : r.All K) : r.settle.All K := by
  unfold Reader.settle
  split
  · exact known
  · have waiting : All K { r with pending := none } := ⟨known.items, known.opened⟩
    exact waiting.add (.call _ true fun _ member => absurd member List.not_mem_nil)

theorem All.takeToken {r : Reader} (known : r.All K) {token : Token} (new : K token) :
    (r.takeToken token).All K := by
  unfold Reader.takeToken
  split
  case h_1 => exact ⟨known.items, known.opened⟩
  case h_2 => exact known.add (.stray token)
  case h_3 top outer _ opened =>
    split
    · exact known.add (.nestedGroup token)
    · refine ⟨known.items, fun o member => ?_⟩
      rcases List.mem_cons.1 member with rfl | later
      · refine ⟨fun argument inside => ?_, fun _ => List.cons_ne_nil _ _⟩
        rcases List.mem_cons.1 inside with rfl | old
        · exact fun _ none => absurd none List.not_mem_nil
        · exact (known.opened top (by rw [opened]; exact List.mem_cons_self)).items argument old
      · exact known.opened o (by rw [opened]; exact List.mem_cons_of_mem _ later)
  case h_4 => exact known.add (.stray token)
  case h_5 top outer _ opened =>
    have first := known.opened top (by rw [opened]; exact List.mem_cons_self)
    have others : ∀ o ∈ outer, Opened.All K o := fun o later =>
      known.opened o (by rw [opened]; exact List.mem_cons_of_mem _ later)
    split
    · refine ⟨known.items, fun o member => ?_⟩
      rcases List.mem_cons.1 member with rfl | later
      · exact ⟨first.items, fun open_ => nomatch open_⟩
      · exact others o later
    · have rest : All K { r with opened := outer } := ⟨known.items, others⟩
      exact rest.add (first.call true)
  case h_6 kind =>
    refine known.add ?_
    split
    · rename_i register
      refine .plain new ⟨?_, ?_, ?_, fun _ => register⟩
      all_goals
        rw [kind]
        exact fun same => nomatch same
    · exact .register new kind
  case h_7 _ _ name register stray opening unopened closing =>
    refine known.add (.plain new ⟨name, ?_, ?_, fun kind => (register kind).elim⟩)
    · intro kind
      cases opened : r.opened with
      | nil => exact stray kind opened
      | cons top outer => exact opening top outer kind opened
    · intro kind
      cases opened : r.opened with
      | nil => exact unopened kind opened
      | cons top outer => exact closing top outer kind opened

theorem All.take {r : Reader} (known : r.All K) {token : Token} (new : K token) :
    (r.take token).All K := by
  unfold Reader.take
  split
  · exact known.takeToken new
  · split
    · refine ⟨known.items, fun o member => ?_⟩
      rcases List.mem_cons.1 member with rfl | later
      · exact ⟨fun _ none => absurd none List.not_mem_nil, fun group => nomatch group⟩
      · exact known.opened o later
    · exact known.settle.takeToken new

theorem all_endCalls (outer : List Opened) : ∀ {item : Item}, item.All K →
    (∀ o ∈ outer, Opened.All K o) → (endCalls item outer).All K := by
  induction outer with
  | nil => exact fun known _ => known
  | cons next rest ih =>
    intro item known opened
    have added := (opened next List.mem_cons_self).add known
    exact ih (added.call false) fun o member => opened o (List.mem_cons_of_mem _ member)

theorem All.finish {r : Reader} (known : r.All K) : ∀ item ∈ r.finish, item.All K := by
  have settled := known.settle
  unfold Reader.finish
  dsimp only
  split
  · exact fun item member => settled.items item (List.mem_reverse.1 member)
  · rename_i top outer opened
    intro item member
    rcases List.mem_cons.1 (List.mem_reverse.1 member) with rfl | old
    · refine all_endCalls outer ?_ fun o later => settled.opened o ?_
      · exact (settled.opened top (by rw [opened]; exact List.mem_cons_self)).call false
      · rw [opened]
        exact List.mem_cons_of_mem _ later
    · exact settled.items item old

end

end Reader

/-- Reading the calls keeps the tokens. -/
theorem all_ofTokens {K : Token → Prop} {tokens : List Token} (known : ∀ token ∈ tokens, K token) :
    ∀ item ∈ ofTokens tokens, item.All K := by
  have read : ∀ (tokens : List Token) (r : Reader), r.All K → (∀ token ∈ tokens, K token) →
      (tokens.foldl Reader.take r).All K := by
    intro tokens
    induction tokens with
    | nil => exact fun _ known _ => known
    | cons token rest ih =>
      intro r known tokens
      exact ih _ (known.take (tokens token List.mem_cons_self))
        fun other later => tokens other (List.mem_cons_of_mem _ later)
  refine (read tokens .initial ⟨?_, ?_⟩ known).finish
  · exact fun _ member => absurd member List.not_mem_nil
  · exact fun _ member => absurd member List.not_mem_nil

end Item

/-! ## Expansion -/

namespace Expansion

/-- A property of tokens that register actions on other registers keep, and that makes such actions
    plain. -/
def Keeps (K : Token → Prop) : Prop :=
  ∀ token register : Token, K token → token.kind = .registerAction →
    (Isa.Register.ofName? register.text).isSome = true →
      let made : Token :=
        ⟨.registerAction, String.ofList (token.text.toList.take 1) ++ register.text, token.span⟩
      K made ∧ made.Plain

/-- The tokens of a report's value have a property and are plain. -/
abbrev Yields (K : Token → Prop) (r : Report (List Token)) : Prop :=
  ∀ token ∈ r.value, K token ∧ token.Plain

section
variable {K : Token → Prop}

theorem yields_nil : Yields K (pure []) := fun _ member => absurd member List.not_mem_nil

theorem yields_bind {α : Type} {r : Report α} {f : α → Report (List Token)}
    (rest : Yields K (f r.value)) : Yields K (r >>= f) := by
  unfold Yields
  rw [Report.value_bind]
  exact rest

theorem yields_nested {r : Unit → Report (List Token)} (inside : Yields K (r ())) :
    Yields K (Report.nested r) := by
  unfold Yields
  rw [Report.value_nested]
  exact inside

theorem yields_expandRegister (keeps : Keeps K) (ctx : Context) {token : Token} (known : K token)
    (kind : token.kind = .registerAction) : Yields K (expandRegister ctx token) := by
  unfold expandRegister
  refine yields_bind ?_
  dsimp only
  split
  · exact yields_bind yields_nil
  · split
    · exact yields_bind yields_nil
    · split
      · exact yields_bind yields_nil
      · refine yields_bind ?_
        split
        · split
          · rename_i names
            intro other member
            rw [List.mem_singleton.1 member]
            exact keeps _ _ known kind (Bool.and_eq_true_iff.1 names).2
          · exact yields_bind yields_nil
        · exact yields_bind yields_nil

/-- The macros that items see have a property, and so has what the bodies of macros expand to. -/
structure Context.All (K : Token → Prop) (ctx : Context) : Prop where
  scope : ctx.scope.All (Macro.All K)
  body : ∀ scope stack tokens, scope.All (Macro.All K) → (∀ token ∈ tokens, K token) →
    Yields K (ctx.expandBody scope stack tokens)

theorem yields_expandCall {ctx : Context} (known : ctx.All K) (ofProgram : Bool) (head : Token)
    {arguments : List (List Token)}
    (bound : ∀ argument ∈ arguments, ∀ token ∈ argument, K token) :
    Yields K (expandCall ctx ofProgram head arguments) := by
  unfold expandCall
  dsimp only
  split
  · exact yields_bind yields_nil
  · rename_i m home found
    obtain ⟨body, outer⟩ := known.scope.resolve found
    split
    · exact yields_bind yields_nil
    · split
      · exact yields_bind yields_nil
      · have expanded := known.body (bindArguments m arguments home) (ctx.stack ++ [head.text])
          m.body (outer.bindArguments fun _ _ => bound) body
        have noted : Yields K do
            let body ← ctx.expandBody (bindArguments m arguments home) (ctx.stack ++ [head.text])
              m.body
            if ofProgram then
              Report.note s!"expands to {preview body}" (some head.span)
            return body := by
          refine yields_bind ?_
          dsimp only
          split
          · exact yields_bind expanded
          · exact expanded
        split
        · exact noted
        · exact yields_bind noted

mutual

theorem yields_expandItem (keeps : Keeps K) {ctx : Context} (known : ctx.All K) (ofProgram : Bool) :
    ∀ item : Item, item.All K → Yields K (expandItem ctx ofProgram item)
  | .plain token, h => by
    cases h with
    | plain first plain =>
      intro other member
      rw [List.mem_singleton.1 member]
      exact ⟨first, plain⟩
  | .register token, h => by
    cases h with
    | register first kind =>
      unfold expandItem
      exact yields_nested (yields_expandRegister keeps ctx first kind)
  | .stray token, _ => yields_bind yields_nil
  | .nestedGroup token, _ => yields_bind yields_nil
  | .call head arguments closed, h => by
    cases h with
    | call _ _ inside =>
      unfold expandItem
      have bound := all_expandArguments keeps known arguments [] inside
        fun _ member => absurd member List.not_mem_nil
      have called := yields_expandCall known ofProgram head
        fun argument member token inside => (bound argument member token inside).1
      refine yields_nested (yields_bind ?_)
      dsimp only
      split
      · exact called
      · exact yields_bind called

theorem yields_expandItems (keeps : Keeps K) {ctx : Context} (known : ctx.All K)
    (ofProgram : Bool) :
    ∀ (items : List Item) (tokens : List Token),
    (∀ item ∈ items, item.All K) → (∀ token ∈ tokens, K token ∧ token.Plain) →
    Yields K (expandItems ctx ofProgram tokens items)
  | [], tokens, _, before => fun token member => before token (List.mem_reverse.1 member)
  | item :: rest, tokens, inside, before => by
    unfold expandItems
    have first := yields_expandItem keeps known ofProgram item (inside item List.mem_cons_self)
    refine yields_bind (yields_expandItems keeps known ofProgram rest _ ?_ fun token member => ?_)
    · exact fun other later => inside other (List.mem_cons_of_mem _ later)
    · rcases List.mem_append.1 member with new | old
      · exact first token (List.mem_reverse.1 new)
      · exact before token old

theorem all_expandArguments (keeps : Keeps K) {ctx : Context} (known : ctx.All K) :
    ∀ (arguments : List (List Item)) (done : List (List Token)),
    (∀ argument ∈ arguments, ∀ item ∈ argument, item.All K) →
    (∀ argument ∈ done, ∀ token ∈ argument, K token ∧ token.Plain) →
    ∀ argument ∈ (expandArguments ctx done arguments).value,
      ∀ token ∈ argument, K token ∧ token.Plain
  | [], done, _, before => fun argument member => before argument (List.mem_reverse.1 member)
  | argument :: rest, done, inside, before => by
    unfold expandArguments
    rw [Report.value_bind]
    have first := yields_expandItems keeps known false argument []
      (inside argument List.mem_cons_self) fun _ member => absurd member List.not_mem_nil
    refine all_expandArguments keeps known rest _ ?_ fun other member => ?_
    · exact fun other later => inside other (List.mem_cons_of_mem _ later)
    · rcases List.mem_cons.1 member with rfl | old
      · exact first
      · exact before other old

end

theorem yields_expandTokens (keeps : Keeps K) (depth : Nat) : ∀ (ofProgram : Bool) (scope : Scope)
    (stack : List String) (tokens : List Token), scope.All (Macro.All K) →
    (∀ token ∈ tokens, K token) → Yields K (expandTokens depth ofProgram scope stack tokens) := by
  induction depth with
  | zero => exact fun _ _ _ _ _ _ => yields_nil
  | succ depth ih =>
    intro ofProgram scope stack tokens known inside
    exact yields_expandItems keeps ⟨known, ih false⟩ ofProgram _ [] (Item.all_ofTokens inside)
      fun _ member => absurd member List.not_mem_nil

end

end Expansion

/-- The expansion makes plain tokens, and keeps a property of those of the program and its
    macros. -/
theorem all_expand {K : Token → Prop} (keeps : Expansion.Keeps K) {macros : Frame}
    {tokens : List Token} (defined : ∀ m ∈ macros, m.All K) (known : ∀ token ∈ tokens, K token) :
    ∀ token ∈ (expand macros tokens).value, K token ∧ token.Plain := by
  refine Expansion.yields_expandTokens keeps _ true [macros] [] tokens
    (fun frame member => ?_) known
  rw [List.mem_singleton.1 member]
  exact defined

/-! ## Known tokens -/

/-- The text of a register action on another register. -/
theorem toList_onRegister (token register : Token) {c : Char} {operand : List Char}
    (text : token.text.toList = c :: operand) :
    (String.ofList (token.text.toList.take 1) ++ register.text).toList =
      c :: register.text.toList := by
  rw [String.toList_append, String.toList_ofList, text]
  rfl

/-- A register action whose text has an operation is plain on a register. -/
theorem plain_onRegister {token register : Token} {c : Char} {operand : List Char}
    (text : token.text.toList = c :: operand)
    (names : (Isa.Register.ofName? register.text).isSome = true) :
    Token.Plain
      ⟨.registerAction, String.ofList (token.text.toList.take 1) ++ register.text, token.span⟩ := by
  refine ⟨?_, ?_, ?_, fun _ => ?_⟩
  case refine_1 | refine_2 | refine_3 => exact fun same => nomatch same
  · unfold Item.Reader.namesRegister
    rw [toList_onRegister token register text, List.drop_succ_cons, List.drop_zero,
      String.ofList_toList]
    exact names

theorem keeps_known : Expansion.Keeps Token.Known := by
  intro token register known kind names
  have letters : register.text.toList ≠ [] := by
    intro none
    unfold Isa.Register.ofName? at names
    rw [none] at names
    cases names
  cases text : token.text.toList with
  | nil =>
    have spelt := known.registerAction kind
    rw [text] at spelt
    cases spelt
  | cons c operand =>
    have spelt := known.registerAction kind
    rw [text] at spelt
    refine ⟨?_, text ▸ plain_onRegister text names⟩
    show Spelling.RegisterAction (String.toList _)
    rw [← text, toList_onRegister token register text]
    cases spelt with
    | mk op some => exact .mk op letters

/-- The expansion makes known and plain tokens of known ones. -/
theorem known_expand {macros : Frame} {tokens : List Token}
    (defined : ∀ m ∈ macros, m.All Token.Known) (known : ∀ token ∈ tokens, token.Known) :
    ∀ token ∈ (expand macros tokens).value, token.Known ∧ token.Plain :=
  all_expand keeps_known defined known

end NineBit.Asm

import NineBit.Proofs.Asm.Copies

/-!
# No macros are left

What expansion makes has neither names nor parentheses of macros, and its register actions are an
operator and the letter of a register (`Token.MacroFree`). The same is true of the arguments that
are bound on the way, whatever goes wrong: an expansion that fails at the first argument with any
other token never fails (`expandGuarded`).
-/

namespace NineBit

namespace Report

variable {α β : Type}

/-- What comes after a computation only sees its value. -/
theorem bind_congr_value {r : Report α} {f g : α → Report β} (same : f r.value = g r.value) :
    (r >>= f) = r >>= g := by
  induction r with
  | done a => exact same
  | enter entry next ih =>
    rw [bind_enter, bind_enter]
    exact congrArg (enter entry) (funext fun _ => ih () same)

end Report

namespace Asm

/-- A register action begins with an operator. -/
def Token.Operated (operator : Char → Prop) (token : Token) : Prop :=
  token.kind = .registerAction → ∃ c operand, token.text.toList = c :: operand ∧ operator c

/-- A token that is no part of a macro call: neither a name nor a parenthesis, and a register action
    is an operator and the letter of a register. -/
structure Token.MacroFree (operator : Char → Prop) (token : Token) : Prop where
  name : token.kind ≠ .macroName
  opening : token.kind ≠ .argumentsStart
  closing : token.kind ≠ .argumentsEnd
  action : token.kind = .registerAction →
    ∃ c, operator c ∧ ∃ r : Isa.Register, token.text.toList = [c, r.letter]

/-- The name of a register is its letter. -/
theorem letter_of_names {text : String} (names : (Isa.Register.ofName? text).isSome = true) :
    ∃ r : Isa.Register, text.toList = [r.letter] := by
  obtain ⟨r, found⟩ := Option.isSome_iff_exists.1 names
  unfold Isa.Register.ofName? at found
  split at found
  · rename_i letter single
    have same := List.find?_some (p := fun r : Isa.Register => r.letter == letter) found
    exact ⟨r, by rw [single, beq_iff_eq.1 same]⟩
  · cases found

section
variable {operator : Char → Prop} {token : Token}

theorem Token.Plain.macroFree (plain : token.Plain) (operated : token.Operated operator) :
    token.MacroFree operator := by
  refine ⟨plain.name, plain.opening, plain.closing, fun kind => ?_⟩
  obtain ⟨c, operand, text, holds⟩ := operated kind
  obtain ⟨r, letter⟩ := letter_of_names (plain.register kind)
  rw [text, List.drop_succ_cons, List.drop_zero, String.toList_ofList] at letter
  exact ⟨c, holds, r, by rw [text, letter]⟩

/-- An action on another register keeps its operator. -/
theorem keeps_operated : Expansion.Keeps (Token.Operated operator) := by
  intro token register operated kind names
  obtain ⟨c, operand, text, holds⟩ := operated kind
  refine ⟨fun _ => ⟨c, register.text.toList, ?_, holds⟩, plain_onRegister text names⟩
  exact toList_onRegister token register text

/-- The register actions of a source text begin with the symbol of an operation. -/
theorem Token.Known.operated (known : token.Known) :
    token.Operated fun c => ∃ op : Isa.Operation, op.symbol = c := by
  intro kind
  have spelt := known.registerAction kind
  generalize token.text.toList = text at spelt
  cases spelt with
  | @mk op operand some => exact ⟨op.symbol, operand, rfl, op, rfl⟩

end

namespace Expansion

/-! ## Failing at an argument -/

section
variable (allowed : Token → Bool) (failure : Report (List Token))

mutual

/-- Expands an item as `expandItem` does, but fails where an argument has a token that is not
    allowed. -/
def guardItem (ctx : Context) (ofProgram : Bool) : Item → Report (List Token)
  | .plain token => expandItem ctx ofProgram (.plain token)
  | .register token => expandItem ctx ofProgram (.register token)
  | .stray token => expandItem ctx ofProgram (.stray token)
  | .nestedGroup token => expandItem ctx ofProgram (.nestedGroup token)
  | .call head arguments closed => Report.nested fun _ => do
    let expanded ← guardArguments ctx [] arguments
    unless closed do
      (ExpansionFault.unclosedArguments head.text).report head.span
    if expanded.all (·.all allowed) then expandCall ctx ofProgram head expanded else failure

/-- Expands items as `expandItems` does, with that check. -/
def guardItems (ctx : Context) (ofProgram : Bool) (tokens : List Token) :
    List Item → Report (List Token)
  | [] => return tokens.reverse
  | item :: rest => do
    let expanded ← guardItem ctx ofProgram item
    guardItems ctx ofProgram (expanded.reverse ++ tokens) rest

/-- Expands arguments as `expandArguments` does, with that check. -/
def guardArguments (ctx : Context) (arguments : List (List Token)) :
    List (List Item) → Report (List (List Token))
  | [] => return arguments.reverse
  | argument :: rest => do
    let expanded ← guardItems ctx false [] argument
    guardArguments ctx (expanded :: arguments) rest

end

/-- Expands tokens as `expandTokens` does, with that check at every depth. -/
def guardTokens : Nat → Bool → Scope → List String → List Token → Report (List Token)
  | 0, _, _, _, _ => return []
  | depth + 1, ofProgram, scope, stack, tokens =>
    guardItems allowed failure ⟨scope, stack, guardTokens depth false⟩ ofProgram []
      (Item.ofTokens tokens)

end

section
variable {K : Token → Prop} {scope : Scope} {stack : List String}
  {first second : Scope → List String → List Token → Report (List Token)}

/-- Two ways of expanding bodies give the same reports where all tokens have a property. -/
def AgreeOn (K : Token → Prop)
    (first second : Scope → List String → List Token → Report (List Token)) : Prop :=
  ∀ scope stack tokens, scope.All (Macro.All K) → (∀ token ∈ tokens, K token) →
    first scope stack tokens = second scope stack tokens

theorem expandCall_congr_on (agree : AgreeOn K first second) (known : scope.All (Macro.All K))
    (ofProgram : Bool) (head : Token) {arguments : List (List Token)}
    (bound : ∀ argument ∈ arguments, ∀ token ∈ argument, K token) :
    expandCall ⟨scope, stack, first⟩ ofProgram head arguments =
      expandCall ⟨scope, stack, second⟩ ofProgram head arguments := by
  unfold expandCall
  dsimp only
  cases found : scope.resolve? head.text with
  | none => rfl
  | some resolved =>
    obtain ⟨m, home⟩ := resolved
    obtain ⟨body, outer⟩ := known.resolve found
    dsimp only
    rw [agree _ _ m.body (outer.bindArguments fun _ _ => bound) body]

theorem expandRegister_congr_on (agree : AgreeOn K first second)
    (known : scope.All (Macro.All K)) (token : Token) :
    expandRegister ⟨scope, stack, first⟩ token = expandRegister ⟨scope, stack, second⟩ token := by
  unfold expandRegister
  dsimp only
  cases found : scope.resolve? (String.ofList (token.text.toList.drop 1)) with
  | none => rfl
  | some resolved =>
    obtain ⟨m, home⟩ := resolved
    obtain ⟨body, outer⟩ := known.resolve found
    dsimp only
    rw [agree _ _ m.body outer.child body]

variable {allowed : Token → Bool}

mutual

theorem guardItem_eq (keeps : Keeps K) (free : ∀ token, K token → token.Plain → allowed token)
    (failure : Report (List Token)) (agree : AgreeOn K first second)
    (known : Context.All K ⟨scope, stack, second⟩) (ofProgram : Bool) :
    ∀ item : Item, item.All K →
      guardItem allowed failure ⟨scope, stack, first⟩ ofProgram item =
        expandItem ⟨scope, stack, second⟩ ofProgram item
  | .plain _, _ | .stray _, _ | .nestedGroup _, _ => rfl
  | .register token, _ => by
    unfold guardItem expandItem
    rw [expandRegister_congr_on agree known.scope token]
  | .call head arguments closed, h => by
    cases h with
    | call _ _ inside =>
      have bound := all_expandArguments keeps known arguments [] inside
        fun _ member => absurd member List.not_mem_nil
      unfold guardItem expandItem
      rw [guardArguments_eq keeps free failure agree known arguments [] inside]
      refine congrArg Report.nested (funext fun _ => Report.bind_congr_value ?_)
      have allowed_all : (expandArguments ⟨scope, stack, second⟩ [] arguments).value.all
          (·.all allowed) = true := by
        refine List.all_eq_true.2 fun argument member => List.all_eq_true.2 fun token within => ?_
        obtain ⟨holds, plain⟩ := bound argument member token within
        exact free token holds plain
      rw [if_pos allowed_all, expandCall_congr_on agree known.scope ofProgram head
        fun argument member token within => (bound argument member token within).1]

theorem guardItems_eq (keeps : Keeps K) (free : ∀ token, K token → token.Plain → allowed token)
    (failure : Report (List Token)) (agree : AgreeOn K first second)
    (known : Context.All K ⟨scope, stack, second⟩) (ofProgram : Bool) :
    ∀ (items : List Item) (tokens : List Token), (∀ item ∈ items, item.All K) →
      guardItems allowed failure ⟨scope, stack, first⟩ ofProgram tokens items =
        expandItems ⟨scope, stack, second⟩ ofProgram tokens items
  | [], _, _ => rfl
  | item :: rest, tokens, inside => by
    obtain ⟨here, others⟩ := List.forall_mem_cons.1 inside
    unfold guardItems expandItems
    rw [guardItem_eq keeps free failure agree known ofProgram item here]
    exact bind_congr fun expanded =>
      guardItems_eq keeps free failure agree known ofProgram rest _ others

theorem guardArguments_eq (keeps : Keeps K)
    (free : ∀ token, K token → token.Plain → allowed token)
    (failure : Report (List Token)) (agree : AgreeOn K first second)
    (known : Context.All K ⟨scope, stack, second⟩) :
    ∀ (arguments : List (List Item)) (before : List (List Token)),
      (∀ argument ∈ arguments, ∀ item ∈ argument, item.All K) →
      guardArguments allowed failure ⟨scope, stack, first⟩ before arguments =
        expandArguments ⟨scope, stack, second⟩ before arguments
  | [], _, _ => rfl
  | argument :: rest, before, inside => by
    obtain ⟨here, others⟩ := List.forall_mem_cons.1 inside
    unfold guardArguments expandArguments
    rw [guardItems_eq keeps free failure agree known false argument [] here]
    exact bind_congr fun expanded =>
      guardArguments_eq keeps free failure agree known rest _ others

end

end

/-- At no depth does the check fail. -/
theorem guardTokens_eq {K : Token → Prop} (keeps : Keeps K) {allowed : Token → Bool}
    (free : ∀ token, K token → token.Plain → allowed token) (failure : Report (List Token))
    (ofProgram : Bool) (depth : Nat) :
    AgreeOn K (guardTokens allowed failure depth ofProgram) (expandTokens depth ofProgram) := by
  induction depth generalizing ofProgram with
  | zero => exact fun _ _ _ _ _ => rfl
  | succ depth ih =>
    intro scope stack tokens known inside
    exact guardItems_eq keeps free failure (ih false) ⟨known, yields_expandTokens keeps depth false⟩
      ofProgram (Item.ofTokens tokens) [] (Item.all_ofTokens inside)

end Expansion

/-- Expands the macro calls of a program as `expand` does, but fails where an argument has a token
    that is not allowed. -/
def expandGuarded (allowed : Token → Bool) (failure : Report (List Token)) (macros : Frame)
    (tokens : List Token) : Report (List Token) :=
  Expansion.guardTokens allowed failure ((Expansion.names macros).length + 1) true [macros] []
    tokens

/-- No part of a macro call is left in an expansion or in an argument that it binds. As far as the
    register actions of the program and its macros begin with operators, those that are left are an
    operator and the letter of a register. However a failure at any other argument would show, none
    is seen. -/
theorem expand_macroFree {operator : Char → Prop} {macros : Frame} {tokens : List Token}
    (defined : ∀ m ∈ macros, m.All (Token.Operated operator))
    (operated : ∀ token ∈ tokens, token.Operated operator) :
    (∀ token ∈ (expand macros tokens).value, token.MacroFree operator) ∧
      ∀ (allowed : Token → Bool) (failure : Report (List Token)),
        (∀ token : Token, token.MacroFree operator → allowed token) →
          expandGuarded allowed failure macros tokens = expand macros tokens := by
  refine ⟨fun token member => ?_, fun allowed failure free => ?_⟩
  · obtain ⟨holds, plain⟩ := all_expand keeps_operated defined operated token member
    exact plain.macroFree holds
  · have all : Scope.All (Macro.All (Token.Operated operator)) [macros] := by
      intro frame member
      rw [List.mem_singleton.1 member]
      exact defined
    exact Expansion.guardTokens_eq keeps_operated
      (fun token holds plain => free token (plain.macroFree holds)) failure true _ [macros] []
      tokens all operated

/-- Calls within groups and arguments, a register action on what is no register, an unknown macro, a
    group in a group, and arguments that are not closed. -/
def recoveringSource : Source :=
  ⟨"text", "#define INC R \x7b +R \x7d #define TWO X Y \x7b Y INC(X) X \x7d " ++
    "TWO(a (b INC(c))) INC(PC) NONE TWO((a (d) d) +b TWO(a INC(INC(d)"⟩

theorem expand_macroFree_recovering :
    let lexed := (lex recoveringSource).value
    let failure := Report.done [⟨.macroName, "FAILED", default⟩]
    (expand lexed.macros lexed.tokens).problems.length = 8 ∧
      (expand lexed.macros lexed.tokens).value.map (·.text) =
        ["b", "+c", "+a", "a", "d", "a", "d", "+b", "+a", "a"] ∧
      (∀ token ∈ (expand lexed.macros lexed.tokens).value,
        token.MacroFree fun c => ∃ op : Isa.Operation, op.symbol = c) ∧
      expandGuarded (fun token => decide (token.kind ≠ .macroName)) failure lexed.macros
        lexed.tokens = expand lexed.macros lexed.tokens := by
  dsimp only
  obtain ⟨tokens, macros⟩ := known_lex recoveringSource
  obtain ⟨left, bound⟩ := expand_macroFree
    (fun m member token inside => (macros m member token inside).operated)
    (fun token member => (tokens token member).operated)
  rw [← and_assoc]
  refine ⟨by decide +kernel, left, bound _ _ fun token free => ?_⟩
  exact decide_eq_true free.name

end Asm

end NineBit

import Mathlib.Data.List.Perm.Subperm
import NineBit.Proofs.Asm.Copies

/-!
# The depth of expansion

The names that are being expanded are different from each other, and each is the name of a macro or
of a parameter, so that there are never more of them than such names (`Expansion.Nested`). The depth
that is left for further bodies is the difference, and it never runs out: expanding at a greater
depth gives the same report (`expandTokens_eq_expand`).
-/

namespace NineBit.Asm

/-- A name stands for a macro that has it. -/
theorem Scope.name_of_resolve? {name : String} {m : Macro} {home : Scope} :
    ∀ {scope : Scope}, scope.resolve? name = some (m, home) → m.name = name := by
  intro scope
  induction scope with
  | nil => exact fun none => nomatch none
  | cons frame outer ih =>
    intro found
    unfold Scope.resolve? at found
    split at found
    · rename_i first same
      cases found
      exact beq_iff_eq.1 (List.find?_some (p := fun m : Macro => m.name == name) same)
    · exact ih found

namespace Expansion

/-- The names of a macro and its parameters are among some names. -/
def NamedIn (known : List String) (m : Macro) : Prop :=
  m.name ∈ known ∧ ∀ x ∈ m.parameters, x ∈ known

theorem namedIn_names {macros : Frame} {m : Macro} (member : m ∈ macros) :
    NamedIn (names macros) m := by
  have listed (x : String) (inside : x ∈ m.name :: m.parameters) : x ∈ names macros :=
    List.mem_flatMap.2 ⟨m, member, inside⟩
  exact ⟨listed _ List.mem_cons_self, fun x inside => listed x (List.mem_cons_of_mem _ inside)⟩

/-- Where a body is expanded: the names in use are different ones, and enough depth is left for all
    others. -/
structure Nested (known : List String) (depth : Nat) (scope : Scope) (stack : List String) :
    Prop where
  named : scope.All (NamedIn known)
  nodup : stack.Nodup
  subset : ∀ name ∈ stack, name ∈ known
  depth : known.length < depth + stack.length

namespace Nested

variable {known : List String} {depth : Nat} {scope home : Scope} {stack : List String}
  {name : String} {m : Macro}

theorem root (macros : Frame) {depth : Nat} (enough : (names macros).length < depth) :
    Nested (names macros) depth [macros] [] where
  named frame member m inside := by
    rw [List.mem_singleton.1 member] at inside
    exact namedIn_names inside
  nodup := List.nodup_nil
  subset _ member := absurd member List.not_mem_nil
  depth := enough

/-- As long as a body is to be expanded, some depth is left. -/
theorem pos (nested : Nested known depth scope stack) : 0 < depth := by
  have le := (List.subperm_of_subset nested.nodup nested.subset).length_le
  have lt := nested.depth
  omega

/-- The body of a macro that is not being expanded. -/
theorem body (nested : Nested known (depth + 1) scope stack)
    (found : scope.resolve? name = some (m, home)) (fresh : name ∉ stack)
    (arguments : List (List Token)) :
    Nested known depth (bindArguments m arguments home) (stack ++ [name]) := by
  obtain ⟨own, outer⟩ := nested.named.resolve found
  have lt := nested.depth
  constructor
  · refine outer.bindArguments fun x parameter _ _ => ⟨own.2 x parameter, ?_⟩
    exact fun _ none => absurd none List.not_mem_nil
  · refine List.nodup_append.2 ⟨nested.nodup, List.pairwise_singleton _ _, ?_⟩
    intro old member new this same
    rw [same, List.mem_singleton.1 this] at member
    exact fresh member
  · intro other member
    rcases List.mem_append.1 member with old | new
    · exact nested.subset other old
    · rw [List.mem_singleton.1 new, ← Scope.name_of_resolve? found]
      exact own.1
  · rw [List.length_append, List.length_singleton]
    omega

end Nested

/-- A body without parameters is expanded in an empty frame. -/
theorem bindArguments_nil (m : Macro) (home : Scope) : bindArguments m [] home = home.child := by
  unfold bindArguments
  rw [List.zip_nil_right]
  rfl

/-! ## Expanding bodies in two ways -/

/-- Two ways of expanding bodies give the same reports where a scope and the names in use may call
    for them. -/
def Agree (scope : Scope) (stack : List String)
    (first second : Scope → List String → List Token → Report (List Token)) : Prop :=
  ∀ (name : String) (m : Macro) (home : Scope), scope.resolve? name = some (m, home) →
    name ∉ stack → ∀ arguments : List (List Token),
      first (bindArguments m arguments home) (stack ++ [name]) m.body =
        second (bindArguments m arguments home) (stack ++ [name]) m.body

section
variable {scope : Scope} {stack : List String}
  {first second : Scope → List String → List Token → Report (List Token)}

theorem expandCall_congr (agree : Agree scope stack first second) (ofProgram : Bool) (head : Token)
    (arguments : List (List Token)) :
    expandCall ⟨scope, stack, first⟩ ofProgram head arguments =
      expandCall ⟨scope, stack, second⟩ ofProgram head arguments := by
  unfold expandCall
  dsimp only
  cases found : scope.resolve? head.text with
  | none => rfl
  | some bound =>
    obtain ⟨m, home⟩ := bound
    dsimp only
    by_cases recursive : head.text ∈ stack
    · rw [if_pos recursive, if_pos recursive]
    · rw [if_neg recursive, if_neg recursive, agree head.text m home found recursive arguments]

theorem expandRegister_congr (agree : Agree scope stack first second) (token : Token) :
    expandRegister ⟨scope, stack, first⟩ token = expandRegister ⟨scope, stack, second⟩ token := by
  unfold expandRegister
  dsimp only
  cases found : scope.resolve? (String.ofList (token.text.toList.drop 1)) with
  | none => rfl
  | some bound =>
    obtain ⟨m, home⟩ := bound
    dsimp only
    by_cases recursive : String.ofList (token.text.toList.drop 1) ∈ stack
    · simp only [if_pos recursive]
    · have same := agree _ m home found recursive []
      rw [bindArguments_nil] at same
      rw [same]

mutual

theorem expandItem_congr (agree : Agree scope stack first second) (ofProgram : Bool) :
    ∀ item : Item, expandItem ⟨scope, stack, first⟩ ofProgram item =
      expandItem ⟨scope, stack, second⟩ ofProgram item
  | .plain _ | .stray _ | .nestedGroup _ => rfl
  | .register token => by
    unfold expandItem
    rw [expandRegister_congr agree token]
  | .call head arguments closed => by
    unfold expandItem
    rw [expandArguments_congr agree arguments []]
    simp only [expandCall_congr agree]

theorem expandItems_congr (agree : Agree scope stack first second) (ofProgram : Bool) :
    ∀ (items : List Item) (tokens : List Token),
      expandItems ⟨scope, stack, first⟩ ofProgram tokens items =
        expandItems ⟨scope, stack, second⟩ ofProgram tokens items
  | [], _ => rfl
  | item :: rest, tokens => by
    unfold expandItems
    rw [expandItem_congr agree ofProgram item]
    simp only [expandItems_congr agree ofProgram rest]

theorem expandArguments_congr (agree : Agree scope stack first second) :
    ∀ (arguments : List (List Item)) (done : List (List Token)),
      expandArguments ⟨scope, stack, first⟩ done arguments =
        expandArguments ⟨scope, stack, second⟩ done arguments
  | [], _ => rfl
  | argument :: rest, done => by
    unfold expandArguments
    rw [expandItems_congr agree false argument []]
    simp only [expandArguments_congr agree rest]

end

end

/-- One more level is not needed. -/
theorem expandTokens_succ {known : List String} (depth : Nat) :
    ∀ {scope : Scope} {stack : List String} (ofProgram : Bool) (tokens : List Token),
      Nested known depth scope stack →
        expandTokens (depth + 1) ofProgram scope stack tokens =
          expandTokens depth ofProgram scope stack tokens := by
  induction depth with
  | zero =>
    intro scope stack ofProgram tokens nested
    exact absurd nested.pos (Nat.lt_irrefl 0)
  | succ depth ih =>
    intro scope stack ofProgram tokens nested
    refine expandItems_congr ?_ ofProgram (Item.ofTokens tokens) []
    intro name m home found fresh arguments
    exact ih false m.body (nested.body found fresh arguments)

end Expansion

/-- Whatever depth beyond the number of names is allowed, the expansion is the same. -/
theorem expandTokens_eq_expand (macros : Frame) (tokens : List Token) (more : Nat) :
    Expansion.expandTokens ((Expansion.names macros).length + 1 + more) true [macros] [] tokens =
      expand macros tokens := by
  induction more with
  | zero => rfl
  | succ more ih =>
    have enough : (Expansion.names macros).length < (Expansion.names macros).length + 1 + more := by
      omega
    rw [← ih]
    exact Expansion.expandTokens_succ _ true tokens (.root macros enough)

end NineBit.Asm

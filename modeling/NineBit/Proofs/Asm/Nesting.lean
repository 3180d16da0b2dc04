import Mathlib.Data.List.Forall2
import NineBit.Proofs.Asm.Demands

/-!
# The end of expansion

Expansion ends on every token sequence and every table of macros, recursive ones and unclosed
arguments included. Two things get smaller. Reading a sequence goes forward: its items take
consecutive pieces of it, none of them empty (`Item.Sequence.pieces`), and so do the items within
an item, so that a call tree has no more nodes than there are tokens (`Item.Sequence.nodes_le`).
And expanding a body puts one more name in use, each name once and each one that of a macro or of a
parameter, so that bodies are never nested deeper than there are different names
(`Expansion.expandChecked_eq_expand`).

What expansion needs of its host is nesting, and no bound on nesting is enough for all programs:
calls are nested in the arguments of calls as deep as the text goes (`expand_deepCalls`). So
expansion ends on a host that has the nesting for the program, and breaks on any host for some
program.
-/

namespace NineBit.Asm

namespace Item

/-! ## Reading goes forward -/

/-- The first token of one sequence, if it has any, is that of another. -/
def BeginsLike (tokens others : List Token) : Prop := ∀ next ∈ tokens.head?, next ∈ others.head?

namespace BeginsLike

variable {tokens others : List Token}

theorem nil (others : List Token) : BeginsLike [] others := fun _ none => nomatch none

theorem eq_nil (like : BeginsLike tokens []) : tokens = [] := by
  cases tokens with
  | nil => rfl
  | cons next rest => exact nomatch like next rfl

theorem append (like : BeginsLike tokens others) (front : List Token) :
    BeginsLike (front ++ tokens) (front ++ others) := by
  cases front with
  | nil => exact like
  | cons first rest => exact fun next same => same

end BeginsLike

/-! What is read at the front of a sequence is read there before anything else, too, that begins
like the rest: the reader looks at most one token ahead. -/

mutual

theorem Heads.frame : ∀ {tokens rest : List Token} {item : Item}, Heads tokens item rest →
    ∃ taken, taken ≠ [] ∧ tokens = taken ++ rest ∧
      ∀ other, BeginsLike other rest → Heads (taken ++ other) item other
  | _, _, _, @Heads.plain token leaf rest =>
    ⟨[token], List.cons_ne_nil _ _, rfl, fun other _ => .plain leaf other⟩
  | _, _, _, @Heads.register token kind names rest =>
    ⟨[token], List.cons_ne_nil _ _, rfl, fun other _ => .register kind names other⟩
  | _, _, _, @Heads.name head rest kind bare =>
    ⟨[head], List.cons_ne_nil _ _, rfl,
      fun other like => .name kind fun next first => bare next (like next first)⟩
  | _, _, _, @Heads.call head opening tokens rest arguments closed kind opens inside => by
    obtain ⟨taken, rfl, frame⟩ := inside.frame
    exact ⟨head :: opening :: taken, List.cons_ne_nil _ _, rfl,
      fun other like => .call kind opens (frame other like)⟩

theorem Arguments.frame : ∀ {tokens rest : List Token} {arguments : List (List Item)}
    {closed : Bool}, Arguments tokens arguments closed rest →
    ∃ taken, tokens = taken ++ rest ∧
      ∀ other, BeginsLike other rest → Arguments (taken ++ other) arguments closed other
  | _, _, _, _, .unclosed => by
    refine ⟨[], rfl, fun other like => ?_⟩
    rw [like.eq_nil]
    exact .unclosed
  | _, _, _, _, @Arguments.close closing closes rest =>
    ⟨[closing], rfl, fun other _ => .close closes other⟩
  | _, _, _, _, @Arguments.item _ _ rest item arguments closed first later => by
    obtain ⟨front, -, rfl, heads⟩ := first.frame
    obtain ⟨taken, rfl, frame⟩ := later.frame
    refine ⟨front ++ taken, (List.append_assoc _ _ _).symm, fun other like => ?_⟩
    rw [List.append_assoc]
    exact .item (heads _ (like.append taken)) (frame other like)
  | _, _, _, _, @Arguments.group opening _ _ rest items arguments closed opens first later => by
    obtain ⟨front, rfl, group⟩ := first.frame
    obtain ⟨taken, rfl, frame⟩ := later.frame
    refine ⟨opening :: (front ++ taken), ?_, fun other like => ?_⟩
    · rw [List.cons_append, List.append_assoc]
    · rw [List.cons_append, List.append_assoc]
      exact .group opens (group _ (like.append taken)) (frame other like)

theorem Group.frame : ∀ {tokens rest : List Token} {items : List Item}, Group tokens items rest →
    ∃ taken, tokens = taken ++ rest ∧
      ∀ other, BeginsLike other rest → Group (taken ++ other) items other
  | _, _, _, .unclosed => by
    refine ⟨[], rfl, fun other like => ?_⟩
    rw [like.eq_nil]
    exact .unclosed
  | _, _, _, @Group.close closing closes rest =>
    ⟨[closing], rfl, fun other _ => .close closes other⟩
  | _, _, _, @Group.item _ _ rest item items first later => by
    obtain ⟨front, -, rfl, heads⟩ := first.frame
    obtain ⟨taken, rfl, frame⟩ := later.frame
    refine ⟨front ++ taken, (List.append_assoc _ _ _).symm, fun other like => ?_⟩
    rw [List.append_assoc]
    exact .item (heads _ (like.append taken)) (frame other like)
  | _, _, _, @Group.nested opening _ rest items opens later => by
    obtain ⟨taken, rfl, frame⟩ := later.frame
    exact ⟨opening :: taken, rfl, fun other like => .nested opens (frame other like)⟩

end

/-- The items of a sequence take consecutive pieces of it. No piece is empty, and each one by
    itself is read as its item. -/
theorem Sequence.pieces {tokens : List Token} {items : List Item}
    (sequence : Sequence tokens items) :
    ∃ pieces : List (List Token), pieces.flatten = tokens ∧ (∀ piece ∈ pieces, piece ≠ []) ∧
      List.Forall₂ (fun piece item => Sequence piece [item]) pieces items := by
  induction sequence with
  | nil => exact ⟨[], rfl, fun _ member => (nomatch member), .nil⟩
  | @item tokens more item items first later ih =>
    obtain ⟨taken, some, rfl, heads⟩ := first.frame
    obtain ⟨pieces, rfl, nonempty, read⟩ := ih
    have alone := heads [] (.nil _)
    rw [List.append_nil] at alone
    exact ⟨taken :: pieces, rfl, List.forall_mem_cons.2 ⟨some, nonempty⟩,
      .cons (.item alone .nil) read⟩
  | @stray token tokens items kind later ih =>
    obtain ⟨pieces, rfl, nonempty, read⟩ := ih
    exact ⟨[token] :: pieces, rfl, List.forall_mem_cons.2 ⟨List.cons_ne_nil _ _, nonempty⟩,
      .cons (.stray kind .nil) read⟩

/-! ## The size of a call tree -/

mutual

/-- The number of nodes of an item. -/
def nodes : Item → Nat
  | .call _ arguments _ => nodesOfArguments arguments + 1
  | _ => 1

/-- The number of nodes of some items. -/
def nodesOf : List Item → Nat
  | [] => 0
  | item :: rest => item.nodes + nodesOf rest

/-- The number of nodes of arguments. -/
def nodesOfArguments : List (List Item) → Nat
  | [] => 0
  | argument :: rest => nodesOf argument + nodesOfArguments rest

end

mutual

theorem Heads.nodes_le : ∀ {tokens rest : List Token} {item : Item}, Heads tokens item rest →
    item.nodes + rest.length ≤ tokens.length
  | _, _, _, .plain _ rest | _, _, _, .register _ _ rest => by
    rw [nodes, List.length_cons]
    · omega
    all_goals exact fun _ _ _ => Item.noConfusion
  | _, _, _, .name _ _ => by
    rw [nodes, nodesOfArguments, List.length_cons]
    omega
  | _, _, _, .call _ _ inside => by
    have le := inside.nodes_le
    rw [nodes, List.length_cons, List.length_cons]
    omega

theorem Arguments.nodes_le : ∀ {tokens rest : List Token} {arguments : List (List Item)}
    {closed : Bool}, Arguments tokens arguments closed rest →
    nodesOfArguments arguments + rest.length ≤ tokens.length
  | _, _, _, _, .unclosed => Nat.le_refl _
  | _, _, _, _, .close _ rest => by
    rw [nodesOfArguments, List.length_cons]
    omega
  | _, _, _, _, .item first later => by
    have front := first.nodes_le
    have back := later.nodes_le
    rw [nodesOfArguments, nodesOf, nodesOf]
    omega
  | _, _, _, _, .group _ first later => by
    have front := first.nodes_le
    have back := later.nodes_le
    rw [nodesOfArguments, List.length_cons]
    omega

theorem Group.nodes_le : ∀ {tokens rest : List Token} {items : List Item},
    Group tokens items rest → nodesOf items + rest.length ≤ tokens.length
  | _, _, _, .unclosed => Nat.le_refl _
  | _, _, _, .close _ rest => by
    rw [nodesOf, List.length_cons]
    omega
  | _, _, _, .item first later => by
    have front := first.nodes_le
    have back := later.nodes_le
    rw [nodesOf]
    omega
  | _, _, _, .nested _ later => by
    have back := later.nodes_le
    rw [nodesOf, nodes, List.length_cons]
    · omega
    all_goals exact fun _ _ _ => Item.noConfusion

end

/-- Every node of a call tree has a token of its own. -/
theorem Sequence.nodes_le {tokens : List Token} {items : List Item}
    (sequence : Sequence tokens items) : nodesOf items ≤ tokens.length := by
  induction sequence with
  | nil => exact Nat.le_refl _
  | item first later ih =>
    have front := first.nodes_le
    rw [nodesOf]
    omega
  | stray kind later ih =>
    rw [nodesOf, nodes, List.length_cons]
    · omega
    all_goals exact fun _ _ _ => Item.noConfusion

end Item

namespace Expansion

/-! ## The names in use -/

/-- Expands tokens as `expandTokens` does, but fails when no depth is left, or where a name is in
    use twice or is not among the known ones. -/
def expandChecked (known : List String) (failure : Report (List Token)) :
    Nat → Bool → Scope → List String → List Token → Report (List Token)
  | 0, _, _, _, _ => failure
  | depth + 1, ofProgram, scope, stack, tokens =>
    if stack.Nodup ∧ stack ⊆ known then
      expandItems ⟨scope, stack, expandChecked known failure depth false⟩ ofProgram []
        (Item.ofTokens tokens)
    else failure

/-- As long as there is depth for all names that are not in use, no check fails. -/
theorem expandChecked_eq {known : List String} (failure : Report (List Token)) (depth : Nat) :
    ∀ {scope : Scope} {stack : List String} (ofProgram : Bool) (tokens : List Token),
      Nested known depth scope stack →
        expandChecked known failure depth ofProgram scope stack tokens =
          expandTokens depth ofProgram scope stack tokens := by
  induction depth with
  | zero =>
    intro scope stack ofProgram tokens nested
    exact absurd nested.pos (Nat.lt_irrefl 0)
  | succ depth ih =>
    intro scope stack ofProgram tokens nested
    rw [expandChecked, if_pos ⟨nested.nodup, nested.subset⟩]
    refine expandItems_congr ?_ ofProgram (Item.ofTokens tokens) []
    intro name m home found fresh arguments
    exact ih false m.body (nested.body found fresh arguments)

/-- More depth than for all different names is not needed. -/
theorem expandTokens_distinct (macros : Frame) (tokens : List Token) (more : Nat) :
    expandTokens ((names macros).dedup.length + 1 + more) true [macros] [] tokens =
      expandTokens ((names macros).dedup.length + 1) true [macros] [] tokens := by
  induction more with
  | zero => rfl
  | succ more ih =>
    have enough : (names macros).dedup.length < (names macros).dedup.length + 1 + more := by omega
    rw [← ih]
    exact expandTokens_succ _ true tokens (.distinct macros enough)

/-- However a failure would show, none is seen with depth for each different name. -/
theorem expandChecked_eq_expand (macros : Frame) (tokens : List Token)
    (failure : Report (List Token)) {depth : Nat}
    (enough : (names macros).dedup.length < depth) :
    expandChecked (names macros).dedup failure depth true [macros] [] tokens =
      expand macros tokens := by
  rw [expandChecked_eq failure depth true tokens (.distinct macros enough)]
  have less : (names macros).dedup.length ≤ (names macros).length :=
    (List.dedup_sublist _).length_le
  obtain ⟨more, rfl⟩ := Nat.exists_eq_add_of_lt enough
  obtain ⟨further, all⟩ := Nat.exists_eq_add_of_le less
  unfold expand
  rw [all, Nat.add_right_comm _ further, Nat.add_right_comm _ more, expandTokens_distinct,
    expandTokens_distinct]

end Expansion

/-! ## Running out of nesting -/

end NineBit.Asm

namespace NineBit

/-- What is left of a host inside another computation. -/
def Host.inner (host : Host) : Host := { host with nesting := host.nesting - 1 }

namespace Report

variable {α β : Type} {host : Host} {limit : Int} {log : Log} {broken : Crash × Log}

/-- A run that breaks takes the run of all that comes after with it. -/
theorem runOn_bind_error {r : Report α} (f : α → Report β) : ∀ {log : Log},
    r.runOn host limit log = .error broken → (r >>= f).runOn host limit log = .error broken := by
  induction r with
  | done value => exact fun broke => nomatch broke
  | enter entry next ih =>
    intro log broke
    rw [bind_enter]
    have other (made : ∀ d, entry ≠ .demand d) :
        (enter entry fun _ => next () >>= f).runOn host limit log = .error broken := by
      rw [runOn_entry made] at broke ⊢
      split at broke
      · cases broke
      · rename_i goes
        rw [if_neg goes]
        exact ih () broke
    cases entry with
    | demand d =>
      cases refused : host.refusal d with
      | some crash =>
        rw [runOn_refused refused] at broke ⊢
        exact congrArg _ (Except.error.inj broke)
      | none =>
        rw [runOn_met refused] at broke ⊢
        exact ih () broke
    | _ => exact other nofun

/-- Without any nesting left, nothing is evaluated inside another computation. -/
theorem runOn_nested_zero (none : host.nesting = 0) (r : Unit → Report α) :
    (nested r).runOn host limit log = .error (.nesting host.wording, log) := by
  have refused : host.refusal (.nesting 1) = some (.nesting host.wording) :=
    if_neg (by omega)
  exact runOn_refused refused _ log

/-- With some nesting left, it runs on the host with one level less. -/
theorem runOn_nested (some : 0 < host.nesting) (r : Unit → Report α) :
    (nested r).runOn host limit log = (r ()).runOn host.inner limit log := by
  have met : host.refusal (.nesting 1) = none := host.refusal_nesting some
  have deepened : ∀ (r : Report α) (log : Log),
      r.deepen.runOn host limit log = r.runOn host.inner limit log := by
    intro r
    induction r with
    | done value => exact fun _ => rfl
    | enter entry next ih =>
      intro log
      have other (made : ∀ d, entry ≠ .demand d) (same : entry.inside = entry) :
          (enter entry next).deepen.runOn host limit log =
            (enter entry next).runOn host.inner limit log := by
        unfold deepen
        rw [same, runOn_entry made, runOn_entry made, ih]
      cases entry with
      | demand d =>
        obtain ⟨inner, inside, same⟩ : ∃ inner, (Entry.demand d).inside = .demand inner ∧
            host.refusal inner = host.inner.refusal d := by
          cases d with
          | nesting levels =>
            have level : levels + 1 ≤ host.nesting ↔ levels ≤ host.nesting - 1 := by omega
            refine ⟨.nesting (levels + 1), rfl, ?_⟩
            unfold Host.refusal Host.inner
            dsimp only
            simp only [level]
          | _ => exact ⟨_, rfl, rfl⟩
        unfold deepen
        rw [inside]
        cases refused : host.inner.refusal d with
        | some crash => rw [runOn_refused (same.trans refused), runOn_refused refused]
        | none => rw [runOn_met (same.trans refused), runOn_met refused, ih]
      | _ => exact other nofun rfl
  unfold nested
  rw [runOn_met met]
  exact deepened (r ()) log

end Report

namespace Asm

namespace Expansion

variable {head opening : Token}

/-- Calls in the arguments of calls, so many levels deep, none of them closed. -/
def deepCalls (head opening : Token) : Nat → List Token
  | 0 => []
  | n + 1 => head :: opening :: deepCalls head opening n

/-- The arguments of the outermost one. -/
def deepArguments (head : Token) : Nat → List (List Item)
  | 0 => []
  | n + 1 => [[.call head (deepArguments head n) false]]

theorem arguments_deepCalls (call : head.kind = .macroName)
    (opens : opening.kind = .argumentsStart) (n : Nat) :
    Item.Arguments (deepCalls head opening n) (deepArguments head n) false [] := by
  induction n with
  | zero => exact .unclosed
  | succ n ih => exact .item (.call call opens ih) .unclosed

theorem ofTokens_deepCalls (call : head.kind = .macroName)
    (opens : opening.kind = .argumentsStart) (n : Nat) :
    Item.ofTokens (deepCalls head opening (n + 1)) =
      [.call head (deepArguments head n) false] :=
  Item.sequence_iff.1 (.item (.call call opens (arguments_deepCalls call opens n)) .nil)

/-- On a host with no more levels than there are calls, the arguments are never read to their
    end. -/
theorem runOn_deepCall (ctx : Context) (limit : Int) (log : Log) (n : Nat) :
    ∀ (ofProgram : Bool) {host : Host}, host.nesting ≤ n →
      (expandItem ctx ofProgram (.call head (deepArguments head n) false)).runOn host limit log =
        .error (.nesting host.wording, log) := by
  induction n with
  | zero =>
    intro ofProgram host none
    unfold expandItem
    exact Report.runOn_nested_zero (Nat.le_zero.1 none) _
  | succ n ih =>
    intro ofProgram host le
    unfold expandItem
    by_cases none : host.nesting = 0
    · exact Report.runOn_nested_zero none _
    · rw [Report.runOn_nested (Nat.pos_of_ne_zero none)]
      have inner : host.inner.nesting ≤ n := by
        unfold Host.inner
        dsimp only
        omega
      refine Report.runOn_bind_error _ ?_
      unfold deepArguments expandArguments
      refine Report.runOn_bind_error _ ?_
      unfold expandItems
      exact Report.runOn_bind_error _ (ih false inner)

end Expansion

/-- On every host the expansion of calls that are nested deep enough breaks. -/
theorem expand_deepCalls {head opening : Token} (call : head.kind = .macroName)
    (opens : opening.kind = .argumentsStart) (macros : Frame) (host : Host) (limit : Int)
    (log : Log) :
    (expand macros (Expansion.deepCalls head opening (host.nesting + 1))).runOn host limit log =
      .error (.nesting host.wording, log) := by
  unfold expand Expansion.expandTokens
  rw [Expansion.ofTokens_deepCalls call opens]
  unfold Expansion.expandItems
  exact Report.runOn_bind_error _
    (Expansion.runOn_deepCall _ limit log host.nesting true (Nat.le_refl _))

/-- On every host the expansion of a register action without a text breaks. -/
theorem expand_textless (macros : Frame) (span : Span) {host : Host} (some : 0 < host.nesting)
    (limit : Int) (log : Log) :
    (expand macros [⟨.registerAction, "", span⟩]).runOn host limit log =
      .error (.character, log) := by
  have item : Item.ofTokens [⟨.registerAction, "", span⟩] =
      [.register ⟨.registerAction, "", span⟩] :=
    Item.sequence_iff.1 (.item (.register rfl rfl []) .nil)
  unfold expand Expansion.expandTokens
  rw [item]
  unfold Expansion.expandItems
  refine Report.runOn_bind_error _ ?_
  unfold Expansion.expandItem
  rw [Report.runOn_nested some]
  rfl

/-! ## The end -/

/-- With depth for each different name no body is left out, no name is in use twice, and every name
    in use is that of a macro or of a parameter. Expansion ends on every host with the nesting for
    the program, unless the limit on problems is reached, and on no host for all programs: calls
    nested too deep break it, and so does a register action without a text. Reading a sequence goes
    forward with every item, at the top and within calls. -/
theorem expand_ends (macros : Frame) (tokens : List Token) :
    (∀ (failure : Report (List Token)) (depth : Nat),
      (Expansion.names macros).dedup.length < depth →
        Expansion.expandChecked (Expansion.names macros).dedup failure depth true [macros] []
          tokens = expand macros tokens) ∧
    (∀ (host : Host) (limit : Int) (log : Log), (∀ m ∈ macros, m.All Expansion.Operates) →
      (∀ token ∈ tokens, Expansion.Operates token) →
      Expansion.levels macros tokens ≤ host.nesting →
        (expand macros tokens).runOn host limit log = .ok ((expand macros tokens).run limit log)) ∧
    (∀ (host : Host) (limit : Int) (log : Log),
      (∃ deep, (expand macros deep).runOn host limit log = .error (.nesting host.wording, log)) ∧
        (0 < host.nesting → ∀ span, (expand macros [⟨.registerAction, "", span⟩]).runOn host limit
          log = .error (.character, log))) ∧
    ∀ scanned : List Token,
      (∃ pieces : List (List Token), pieces.flatten = scanned ∧ (∀ piece ∈ pieces, piece ≠ []) ∧
        List.Forall₂ (fun piece item => Item.ofTokens piece = [item]) pieces
          (Item.ofTokens scanned)) ∧
      Item.nodesOf (Item.ofTokens scanned) ≤ scanned.length := by
  refine ⟨fun failure depth enough => ?_, fun host limit log bodies operates enough => ?_,
    fun host limit log => ⟨⟨Expansion.deepCalls ⟨.macroName, "F", default⟩
      ⟨.argumentsStart, "(", default⟩ (host.nesting + 1), ?_⟩, fun some span => ?_⟩,
    fun scanned => ?_⟩
  · exact Expansion.expandChecked_eq_expand macros tokens failure enough
  · exact Report.runOn_eq_run ((asks_expand bodies operates).mono fun _ within =>
      within.met enough) log
  · exact expand_deepCalls rfl rfl macros host limit log
  · exact expand_textless macros span some limit log
  · have sequence : Item.Sequence scanned (Item.ofTokens scanned) := Item.sequence_iff.2 rfl
    obtain ⟨pieces, whole, nonempty, read⟩ := sequence.pieces
    refine ⟨⟨pieces, whole, nonempty, ?_⟩, sequence.nodes_le⟩
    exact read.imp fun _ _ alone => Item.sequence_iff.1 alone

/-- Two macros that call each other: two names, so that a third body is never asked for, and three
    levels, so that the usual host does. -/
theorem expand_ends_mutual :
    let name (text : String) : Token := ⟨.macroName, text, default⟩
    let macros : Frame := [⟨"A", [], [name "B"], none⟩, ⟨"B", [], [name "A"], none⟩]
    (Expansion.names macros).dedup.length < 3 ∧
      Expansion.expandChecked (Expansion.names macros).dedup (.done [name "FAILED"]) 3 true [macros]
        [] [name "A"] = expand macros [name "A"] ∧
      (expand macros [name "A"]).problems.length = 1 ∧
      (expand macros [name "A"]).runOn .usual 10 .empty =
        .ok ((expand macros [name "A"]).run 10 .empty) := by
  intro name macros
  refine ⟨by decide, (expand_ends _ _).1 _ 3 (by decide), by decide +kernel,
    (expand_ends _ _).2.1 .usual 10 .empty ?_ ?_ (by decide +kernel)⟩
  · intro m member token inside kind
    have names : token.kind = .macroName := by
      simp only [macros, List.mem_cons, List.not_mem_nil, or_false] at member
      rcases member with rfl | rfl <;> exact (List.mem_singleton.1 inside) ▸ rfl
    rw [names] at kind
    cases kind
  · intro token member kind
    rw [List.mem_singleton.1 member] at kind
    cases kind

end Asm

end NineBit

import NineBit.Proofs.Asm.Copies

/-!
# The grammar of calls

The call tree of a token sequence is what a grammar says (`Item.Sequence`), and every sequence has
just one (`Item.sequence_iff`). A macro's name with a parenthesis behind it is a call with
arguments: each token between the parentheses is an argument, each call is one, and so is each group
in further parentheses. Where a closing parenthesis is missing, the text ends all that is open.
-/

namespace NineBit.Asm

/-- A parenthesis of a macro call. -/
def Token.Kind.isParenthesis (kind : Token.Kind) : Bool :=
  kind = .argumentsStart || kind = .argumentsEnd

namespace Item

mutual

/-- An item at the front of some tokens, and the tokens behind it. -/
inductive Heads : List Token → Item → List Token → Prop where
  | plain {token : Token} (plain : token.Plain) (rest : List Token) :
      Heads (token :: rest) (.plain token) rest
  | register {token : Token} (kind : token.kind = .registerAction)
      (other : Reader.namesRegister token = false) (rest : List Token) :
      Heads (token :: rest) (.register token) rest
  | name {head : Token} {rest : List Token} (kind : head.kind = .macroName)
      (bare : ∀ next ∈ rest.head?, next.kind ≠ .argumentsStart) :
      Heads (head :: rest) (.call head [] true) rest
  | call {head opening : Token} {tokens rest : List Token} {arguments : List (List Item)}
      {closed : Bool} (kind : head.kind = .macroName) (opens : opening.kind = .argumentsStart)
      (inside : Arguments tokens arguments closed rest) :
      Heads (head :: opening :: tokens) (.call head arguments closed) rest

/-- Arguments up to the parenthesis that closes them, and the tokens behind it. -/
inductive Arguments : List Token → List (List Item) → Bool → List Token → Prop where
  | unclosed : Arguments [] [] false []
  | close {closing : Token} (closes : closing.kind = .argumentsEnd) (rest : List Token) :
      Arguments (closing :: rest) [] true rest
  | item {tokens more rest : List Token} {item : Item} {arguments : List (List Item)}
      {closed : Bool} (first : Heads tokens item more)
      (later : Arguments more arguments closed rest) :
      Arguments tokens ([item] :: arguments) closed rest
  | group {opening : Token} {tokens more rest : List Token} {items : List Item}
      {arguments : List (List Item)} {closed : Bool} (opens : opening.kind = .argumentsStart)
      (first : Group tokens items more) (later : Arguments more arguments closed rest) :
      Arguments (opening :: tokens) (items :: arguments) closed rest

/-- The items of a group up to the parenthesis that closes it, and the tokens behind it. -/
inductive Group : List Token → List Item → List Token → Prop where
  | unclosed : Group [] [] []
  | close {closing : Token} (closes : closing.kind = .argumentsEnd) (rest : List Token) :
      Group (closing :: rest) [] rest
  | item {tokens more rest : List Token} {item : Item} {items : List Item}
      (first : Heads tokens item more) (later : Group more items rest) :
      Group tokens (item :: items) rest
  | nested {opening : Token} {tokens rest : List Token} {items : List Item}
      (opens : opening.kind = .argumentsStart) (later : Group tokens items rest) :
      Group (opening :: tokens) (.nestedGroup opening :: items) rest

end

/-- The items of a token sequence. -/
inductive Sequence : List Token → List Item → Prop where
  | nil : Sequence [] []
  | item {tokens more : List Token} {item : Item} {items : List Item}
      (first : Heads tokens item more) (later : Sequence more items) :
      Sequence tokens (item :: items)
  | stray {token : Token} {tokens : List Token} {items : List Item}
      (kind : token.kind.isParenthesis = true) (later : Sequence tokens items) :
      Sequence (token :: tokens) (.stray token :: items)

/-! ## Reading follows the grammar -/

namespace Reader

/-- The items after reading further tokens. -/
def run (r : Reader) (tokens : List Token) : List Item := (tokens.foldl Reader.take r).finish

/-- The reader inside a call with some arguments so far, the last one first. -/
def inside (r : Reader) (head : Token) (arguments : List (List Item)) (inGroup : Bool) : Reader :=
  { r with opened := ⟨head, arguments, inGroup⟩ :: r.opened }

section
variable {r : Reader} {token : Token}

theorem run_cons (r : Reader) (token : Token) (tokens : List Token) :
    r.run (token :: tokens) = (r.take token).run tokens := rfl

theorem take_of_idle (idle : r.pending = none) (token : Token) :
    r.take token = r.takeToken token := by
  unfold take
  rw [idle]

theorem pending_add (r : Reader) (item : Item) : (r.add item).pending = r.pending := by
  unfold add
  split <;> rfl

theorem settle_of_idle (idle : r.pending = none) : r.settle = r := by
  unfold settle
  rw [idle]

theorem pending_settle (r : Reader) : r.settle.pending = none := by
  unfold settle
  split
  · assumption
  · exact pending_add _ _

theorem takeToken_plain (plain : token.Plain) : r.takeToken token = r.add (.plain token) := by
  unfold takeToken
  split
  case h_1 kind => exact absurd kind plain.name
  case h_2 kind _ => exact absurd kind plain.opening
  case h_3 kind _ => exact absurd kind plain.opening
  case h_4 kind _ => exact absurd kind plain.closing
  case h_5 kind _ => exact absurd kind plain.closing
  case h_6 kind => rw [plain.register kind, if_pos rfl]
  case h_7 => rfl

theorem takeToken_register (kind : token.kind = .registerAction)
    (other : namesRegister token = false) : r.takeToken token = r.add (.register token) := by
  unfold takeToken
  rw [kind]
  dsimp only
  rw [other, if_neg Bool.false_ne_true]

/-- No arguments follow the pending name. -/
theorem run_settle {tokens : List Token}
    (bare : ∀ next ∈ tokens.head?, next.kind ≠ .argumentsStart) :
    r.run tokens = r.settle.run tokens := by
  have idle := pending_settle r
  cases tokens with
  | nil =>
    show r.finish = r.settle.finish
    unfold finish
    rw [settle_of_idle idle]
  | cons token rest =>
    have other : token.kind ≠ .argumentsStart := bare token rfl
    rw [run_cons, run_cons, take_of_idle idle]
    cases pending : r.pending with
    | none => rw [take_of_idle pending, settle_of_idle pending]
    | some head =>
      unfold take
      rw [pending]
      dsimp only
      rw [if_neg other]

theorem finish_inside (idle : r.pending = none) (head : Token) (arguments : List (List Item))
    (inGroup : Bool) : (r.inside head arguments inGroup).finish =
      (r.add (.call head (arguments.map List.reverse).reverse false)).finish := by
  have within : (r.inside head arguments inGroup).pending = none := idle
  have added := pending_add r (.call head (arguments.map List.reverse).reverse false)
  rw [idle] at added
  unfold finish
  rw [settle_of_idle within, settle_of_idle added]
  unfold add inside
  cases r.opened <;> rfl

/-- What is read inside a call, outside of its groups, is an argument of its own. -/
theorem add_inside (r : Reader) (head : Token) (arguments : List (List Item)) (item : Item) :
    (r.inside head arguments false).add item = r.inside head ([item] :: arguments) false := rfl

theorem add_inGroup (r : Reader) (head : Token) (group : List Item)
    (arguments : List (List Item)) (item : Item) :
    (r.inside head (group :: arguments) true).add item =
      r.inside head ((item :: group) :: arguments) true := rfl

end

mutual

theorem run_heads : ∀ {tokens rest : List Token} {item : Item}, Heads tokens item rest →
    ∀ {r : Reader}, r.pending = none → r.run tokens = (r.add item).run rest
  | _, _, _, .plain leaf rest, r, idle => by
    rw [run_cons, take_of_idle idle, takeToken_plain leaf]
  | _, _, _, .register kind other rest, r, idle => by
    rw [run_cons, take_of_idle idle, takeToken_register kind other]
  | _, _, _, @Heads.name head _ kind bare, r, idle => by
    have waits : r.take head = { r with pending := some head } := by
      rw [take_of_idle idle]
      unfold takeToken
      rw [kind]
    rw [run_cons, waits, run_settle bare]
    unfold settle
    dsimp only
    rw [← idle]
  | _, _, _, @Heads.call head opening _ _ _ _ kind opens inside, r, idle => by
    have waits : r.take head = { r with pending := some head } := by
      rw [take_of_idle idle]
      unfold takeToken
      rw [kind]
    have opened : ({ r with pending := some head } : Reader).take opening =
        r.inside head [] false := by
      unfold take
      dsimp only
      rw [if_pos opens, ← idle]
      rfl
    rw [run_cons, run_cons, waits, opened]
    exact run_arguments inside idle head []

theorem run_arguments : ∀ {tokens rest : List Token} {arguments : List (List Item)} {closed : Bool},
    Arguments tokens arguments closed rest → ∀ {r : Reader}, r.pending = none →
    ∀ (head : Token) (before : List (List Item)),
      (r.inside head before false).run tokens =
        (r.add (.call head ((before.map List.reverse).reverse ++ arguments) closed)).run rest
  | _, _, _, _, .unclosed, r, idle, head, before => by
    rw [List.append_nil]
    exact finish_inside idle head before false
  | _, _, _, _, @Arguments.close closing closes rest, r, idle, head, before => by
    have within : (r.inside head before false).pending = none := idle
    have closed : (r.inside head before false).takeToken closing =
        r.add (.call head (before.map List.reverse).reverse true) := by
      unfold takeToken
      rw [closes]
      rfl
    rw [run_cons, take_of_idle within, closed, List.append_nil]
  | _, _, _, _, @Arguments.item _ _ _ item arguments _ first later, r, idle, head, before => by
    have within : (r.inside head before false).pending = none := idle
    rw [run_heads first within, add_inside, run_arguments later idle]
    have order : (([item] :: before).map List.reverse).reverse ++ arguments =
        (before.map List.reverse).reverse ++ [item] :: arguments := by simp
    rw [order]
  | _, _, _, _, @Arguments.group opening _ _ _ items arguments _ opens first later, r, idle, head,
    before => by
    have within : (r.inside head before false).pending = none := idle
    have opened : (r.inside head before false).takeToken opening =
        r.inside head ([] :: before) true := by
      unfold takeToken
      rw [opens]
      rfl
    rw [run_cons, take_of_idle within, opened, run_group first idle, run_arguments later idle]
    have order : (((items.reverse ++ []) :: before).map List.reverse).reverse ++ arguments =
        (before.map List.reverse).reverse ++ items :: arguments := by simp
    rw [order]

theorem run_group : ∀ {tokens rest : List Token} {items : List Item}, Group tokens items rest →
    ∀ {r : Reader}, r.pending = none → ∀ (head : Token) (group : List Item)
      (before : List (List Item)),
      (r.inside head (group :: before) true).run tokens =
        (r.inside head ((items.reverse ++ group) :: before) false).run rest
  | _, _, _, .unclosed, r, idle, head, group, before => by
    exact (finish_inside idle head _ true).trans (finish_inside idle head _ false).symm
  | _, _, _, @Group.close closing closes rest, r, idle, head, group, before => by
    have within : (r.inside head (group :: before) true).pending = none := idle
    have closed : (r.inside head (group :: before) true).takeToken closing =
        r.inside head (group :: before) false := by
      unfold takeToken
      rw [closes]
      rfl
    rw [run_cons, take_of_idle within, closed]
    rfl
  | _, _, _, @Group.item _ _ _ item items first later, r, idle, head, group, before => by
    have within : (r.inside head (group :: before) true).pending = none := idle
    rw [run_heads first within, add_inGroup, run_group later idle]
    have order : items.reverse ++ item :: group = (item :: items).reverse ++ group := by simp
    rw [order]
  | _, _, _, @Group.nested opening _ _ items opens later, r, idle, head, group, before => by
    have within : (r.inside head (group :: before) true).pending = none := idle
    have nested : (r.inside head (group :: before) true).takeToken opening =
        (r.inside head (group :: before) true).add (.nestedGroup opening) := by
      unfold takeToken
      rw [opens]
      rfl
    rw [run_cons, take_of_idle within, nested, add_inGroup, run_group later idle]
    have order : items.reverse ++ .nestedGroup opening :: group =
        (.nestedGroup opening :: items).reverse ++ group := by simp
    rw [order]

end

/-- Reading a whole sequence outside of any call. -/
theorem run_sequence {tokens : List Token} {items : List Item} (sequence : Sequence tokens items) :
    ∀ {r : Reader}, r.pending = none → r.opened = [] → r.run tokens = r.items.reverse ++ items := by
  induction sequence with
  | nil =>
    intro r idle outside
    show r.finish = _
    unfold finish
    rw [settle_of_idle idle]
    dsimp only
    rw [outside, List.append_nil]
  | @item tokens more item items first later ih =>
    intro r idle outside
    have added : r.add item = { r with items := item :: r.items } := by
      unfold add
      rw [outside]
    have rest := ih (r := { r with items := item :: r.items }) idle outside
    rw [run_heads first idle, added, rest, List.reverse_cons, List.append_assoc]
    rfl
  | @stray token tokens items kind later ih =>
    intro r idle outside
    have added : r.takeToken token = { r with items := .stray token :: r.items } := by
      have strayed : r.takeToken token = r.add (.stray token) := by
        unfold takeToken
        rw [outside]
        rcases Bool.or_eq_true_iff.1 kind with opens | closes
        · rw [of_decide_eq_true opens]
        · rw [of_decide_eq_true closes]
      rw [strayed]
      unfold add
      rw [outside]
    have rest := ih (r := { r with items := .stray token :: r.items }) idle outside
    rw [run_cons, take_of_idle idle, added, rest, List.reverse_cons, List.append_assoc]
    rfl

end Reader

/-! ## Every sequence has a call tree -/

theorem exists_heads {token : Token} {rest : List Token}
    (arguments : ∀ tokens : List Token, tokens.length < rest.length →
      ∃ arguments closed more, Arguments tokens arguments closed more ∧
        more.length ≤ tokens.length) (other : token.kind.isParenthesis = false) :
    ∃ item more, Heads (token :: rest) item more ∧ more.length ≤ rest.length := by
  obtain ⟨notOpening, notClosing⟩ := Bool.or_eq_false_iff.1 other
  have opening : token.kind ≠ .argumentsStart := of_decide_eq_false notOpening
  have closing : token.kind ≠ .argumentsEnd := of_decide_eq_false notClosing
  by_cases name : token.kind = .macroName
  · cases rest with
    | nil => exact ⟨_, _, .name name (fun _ none => nomatch none), Nat.le_refl _⟩
    | cons next later =>
      by_cases opens : next.kind = .argumentsStart
      · obtain ⟨inside, closed, more, grammar, le⟩ := arguments later (Nat.lt_succ_self _)
        exact ⟨_, _, .call name opens grammar, Nat.le_succ_of_le le⟩
      · refine ⟨_, _, .name name fun same first => ?_, Nat.le_refl _⟩
        cases first
        exact opens
  · by_cases register : token.kind = .registerAction ∧ Reader.namesRegister token = false
    · exact ⟨_, _, .register register.1 register.2 rest, Nat.le_refl _⟩
    · refine ⟨_, _, .plain ⟨name, opening, closing, fun kind => ?_⟩ rest, Nat.le_refl _⟩
      cases names : Reader.namesRegister token with
      | true => rfl
      | false => exact absurd ⟨kind, names⟩ register

/-- Whatever stands behind an opening parenthesis is read to some end. -/
theorem exists_within (n : Nat) : ∀ tokens : List Token, tokens.length < n →
    (∃ arguments closed more, Arguments tokens arguments closed more ∧
      more.length ≤ tokens.length) ∧
    ∃ items more, Group tokens items more ∧ more.length ≤ tokens.length := by
  induction n with
  | zero => exact fun tokens lt => absurd lt (Nat.not_lt_zero _)
  | succ n ih =>
    intro tokens lt
    cases tokens with
    | nil => exact ⟨⟨_, _, _, .unclosed, Nat.le_refl _⟩, _, _, .unclosed, Nat.le_refl _⟩
    | cons token rest =>
      rw [List.length_cons] at lt
      have shorter (more : List Token) (le : more.length ≤ rest.length) := ih more (by omega)
      have here := shorter rest (Nat.le_refl _)
      by_cases closes : token.kind = .argumentsEnd
      · have le : rest.length ≤ (token :: rest).length := Nat.le_succ _
        exact ⟨⟨_, _, _, .close closes rest, le⟩, _, _, .close closes rest, le⟩
      · by_cases opens : token.kind = .argumentsStart
        · obtain ⟨items, more, group, le⟩ := here.2
          obtain ⟨arguments, closed, last, later, less⟩ := (shorter more le).1
          have within : last.length ≤ (token :: rest).length := by
            rw [List.length_cons]
            omega
          refine ⟨⟨_, _, _, .group opens group later, within⟩, _, _, .nested opens group, ?_⟩
          exact Nat.le_succ_of_le le
        · have other : token.kind.isParenthesis = false := by
            unfold Token.Kind.isParenthesis
            rw [decide_eq_false opens, decide_eq_false closes]
            rfl
          have arguments (tokens : List Token) (less : tokens.length < rest.length) :=
            (shorter tokens (Nat.le_of_lt less)).1
          obtain ⟨item, more, first, le⟩ := exists_heads arguments other
          obtain ⟨arguments, closed, last, later, less⟩ := (shorter more le).1
          obtain ⟨items, end_, group, least⟩ := (shorter more le).2
          have within : last.length ≤ (token :: rest).length := by
            rw [List.length_cons]
            omega
          refine ⟨⟨_, _, _, .item first later, within⟩, _, _, .item first group, ?_⟩
          rw [List.length_cons]
          omega

theorem exists_sequence (n : Nat) : ∀ tokens : List Token, tokens.length < n →
    ∃ items, Sequence tokens items := by
  induction n with
  | zero => exact fun tokens lt => absurd lt (Nat.not_lt_zero _)
  | succ n ih =>
    intro tokens lt
    cases tokens with
    | nil => exact ⟨[], .nil⟩
    | cons token rest =>
      rw [List.length_cons] at lt
      cases kind : token.kind.isParenthesis with
      | true =>
        obtain ⟨items, later⟩ := ih rest (by omega)
        exact ⟨_, .stray kind later⟩
      | false =>
        have arguments (tokens : List Token) (_ : tokens.length < rest.length) :=
          (exists_within _ tokens (Nat.lt_succ_self _)).1
        obtain ⟨item, more, first, le⟩ := exists_heads arguments kind
        obtain ⟨items, later⟩ := ih more (by omega)
        exact ⟨_, .item first later⟩

/-- The call tree of a token sequence is the one that the grammar gives it. -/
theorem sequence_iff {tokens : List Token} {items : List Item} :
    Sequence tokens items ↔ ofTokens tokens = items := by
  have reads {items : List Item} (sequence : Sequence tokens items) : ofTokens tokens = items :=
    Reader.run_sequence sequence (r := Reader.initial) rfl rfl
  constructor
  · exact reads
  · rintro rfl
    obtain ⟨items, sequence⟩ := exists_sequence _ tokens (Nat.lt_succ_self _)
    rw [reads sequence]
    exact sequence

/-- Plain tokens call nothing. -/
theorem sequence_plain : ∀ {tokens : List Token}, (∀ token ∈ tokens, token.Plain) →
    Sequence tokens (tokens.map Item.plain)
  | [], _ => .nil
  | _ :: rest, leaves =>
    .item (.plain (leaves _ List.mem_cons_self) rest)
      (sequence_plain fun other later => leaves other (List.mem_cons_of_mem _ later))

end Item

end NineBit.Asm

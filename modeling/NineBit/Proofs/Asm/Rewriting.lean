import Mathlib.Data.List.Forall2
import NineBit.Proofs.Asm.CallTree

/-!
# Call trees of rewritten tokens

Where other names are put in the place of the names that tokens call (`Token.Rewrites`), the call
tree keeps its shape: the same calls are open at each token, and what stands for itself still does
(`Item.alike_ofTokens`).
-/

namespace NineBit.Asm

namespace Token

/-- The name that a token calls. A register action calls its operand, if that is no register. -/
def callee? (token : Token) : Option String :=
  match token.kind with
  | .macroName => some token.text
  | .registerAction =>
    if Item.Reader.namesRegister token then none
    else some (String.ofList (token.text.toList.drop 1))
  | _ => none

/-- The token with another name in the place of the one that it calls. -/
def calling (token : Token) (name : String) : Token :=
  match token.kind with
  | .registerAction => { token with text := String.ofList (token.text.toList.take 1) ++ name }
  | _ => { token with text := name }

theorem callee?_eq_some {token : Token} {name : String} (calls : token.callee? = some name) :
    token.kind = .macroName ∧ token.text = name ∨
      token.kind = .registerAction ∧ Item.Reader.namesRegister token = false ∧
        String.ofList (token.text.toList.drop 1) = name := by
  unfold callee? at calls
  split at calls
  · rename_i kind
    exact .inl ⟨kind, Option.some.inj calls⟩
  · rename_i kind
    split at calls
    · cases calls
    · rename_i other
      exact .inr ⟨kind, Bool.eq_false_iff.2 other, Option.some.inj calls⟩
  · cases calls

theorem text_of_callee? {token : Token} {name : String} (kind : token.kind = .macroName)
    (calls : token.callee? = some name) : token.text = name := by
  rcases callee?_eq_some calls with ⟨-, text⟩ | ⟨register, -⟩
  · exact text
  · rw [kind] at register
    cases register

theorem operand_of_callee? {token : Token} {name : String} (kind : token.kind = .registerAction)
    (calls : token.callee? = some name) :
    Item.Reader.namesRegister token = false ∧
      String.ofList (token.text.toList.drop 1) = name := by
  rcases callee?_eq_some calls with ⟨macroName, -⟩ | ⟨-, operand⟩
  · rw [kind] at macroName
    cases macroName
  · exact operand

/-- A token that calls nothing is plain or a parenthesis. -/
theorem plain_of_callee? {token : Token} (none : token.callee? = none) :
    token.Plain ∨ token.kind = .argumentsStart ∨ token.kind = .argumentsEnd := by
  unfold callee? at none
  by_cases opening : token.kind = .argumentsStart
  · exact .inr (.inl opening)
  by_cases closing : token.kind = .argumentsEnd
  · exact .inr (.inr closing)
  refine .inl ⟨fun name => ?_, opening, closing, fun kind => ?_⟩
  · rw [name] at none
    cases none
  · rw [kind] at none
    dsimp only at none
    split at none
    · assumption
    · cases none

/-- Two tokens that differ in the names that they call. -/
structure Recalls (token other : Token) (name another : String) : Prop where
  kind : other.kind = token.kind
  span : other.span = token.span
  operation : token.kind = .registerAction →
    String.ofList (other.text.toList.take 1) = String.ofList (token.text.toList.take 1)
  callee : token.callee? = some name
  other_callee : other.callee? = some another

theorem Recalls.refl {token : Token} {name : String} (calls : token.callee? = some name) :
    Recalls token token name name :=
  ⟨rfl, rfl, fun _ => rfl, calls, calls⟩

/-- Names are put in the place of those they may stand for; tokens that call nothing are kept. -/
inductive Rewrites (R : Token → String → String → Prop) : Token → Token → Prop where
  | same {token : Token} (none : token.callee? = none) : Rewrites R token token
  | call {token other : Token} {name another : String}
      (recalls : Recalls token other name another) (stands : R token name another) :
      Rewrites R token other

/-- A macro's name in the place of another. -/
def Heads (R : Token → String → String → Prop) (head other : Token) : Prop :=
  head.kind = .macroName ∧ ∃ name another, Recalls head other name another ∧ R head name another

end Token

namespace Item

/-- Call trees of one shape, of tokens that call other names. -/
inductive Alike (R : Token → String → String → Prop) : Item → Item → Prop where
  | plain (token : Token) : Alike R (.plain token) (.plain token)
  | register {token other : Token} {name another : String} (kind : token.kind = .registerAction)
      (recalls : Token.Recalls token other name another) (stands : R token name another) :
      Alike R (.register token) (.register other)
  | stray (token : Token) : Alike R (.stray token) (.stray token)
  | nestedGroup (token : Token) : Alike R (.nestedGroup token) (.nestedGroup token)
  | call {head other : Token} {arguments others : List (List Item)}
      (heads : Token.Heads R head other) (closed : Bool)
      (inside : List.Forall₂ (List.Forall₂ (Alike R)) arguments others) :
      Alike R (.call head arguments closed) (.call other others closed)

namespace Reader

variable {R : Token → String → String → Prop}

/-- Two calls whose arguments are being read. -/
structure Opened.Alike (R : Token → String → String → Prop) (o other : Opened) : Prop where
  heads : Token.Heads R o.head other.head
  arguments : List.Forall₂ (List.Forall₂ (Item.Alike R)) o.arguments other.arguments
  inGroup : other.inGroup = o.inGroup

/-- Two readers that have read tokens of which those of the second are rewritten. -/
structure Alike (R : Token → String → String → Prop) (r other : Reader) : Prop where
  items : List.Forall₂ (Item.Alike R) r.items other.items
  opened : List.Forall₂ (Opened.Alike R) r.opened other.opened
  pending : Option.Rel (Token.Heads R) r.pending other.pending

theorem Opened.Alike.add {o other : Opened} (alike : Opened.Alike R o other) {item twin : Item}
    (new : Item.Alike R item twin) :
    Opened.Alike R (Opened.add o item) (Opened.add other twin) := by
  obtain ⟨head, arguments, inGroup⟩ := o
  obtain ⟨other, others, inOther⟩ := other
  obtain ⟨heads, inside, same⟩ := alike
  dsimp only at heads inside same
  subst same
  cases inside with
  | nil => cases inOther <;> exact ⟨heads, .cons (.cons new .nil) .nil, rfl⟩
  | cons group later =>
    cases inOther with
    | false => exact ⟨heads, .cons (.cons new .nil) (.cons group later), rfl⟩
    | true => exact ⟨heads, .cons (.cons new group) later, rfl⟩

theorem Opened.Alike.call {o other : Opened} (alike : Opened.Alike R o other) (closed : Bool) :
    Item.Alike R (Opened.call o closed) (Opened.call other closed) :=
  .call alike.heads closed
    (List.rel_reverse (List.rel_map (fun _ _ group => List.rel_reverse group) alike.arguments))

namespace Alike

variable {r other : Reader}

theorem add (alike : Alike R r other) {item twin : Item} (new : Item.Alike R item twin) :
    Alike R (r.add item) (other.add twin) := by
  obtain ⟨items, opened, pending⟩ := r
  obtain ⟨others, openedOthers, pendingOther⟩ := other
  obtain ⟨read, inside, waiting⟩ := alike
  dsimp only at read inside waiting
  cases inside with
  | nil => exact ⟨.cons new read, .nil, waiting⟩
  | cons top outer => exact ⟨read, .cons (top.add new) outer, waiting⟩

theorem settle (alike : Alike R r other) : Alike R r.settle other.settle := by
  obtain ⟨items, opened, pending⟩ := r
  obtain ⟨others, openedOthers, pendingOther⟩ := other
  obtain ⟨read, inside, waiting⟩ := alike
  dsimp only at read inside waiting
  cases waiting with
  | none => exact ⟨read, inside, .none⟩
  | some heads =>
    have idle : Alike R ⟨items, opened, none⟩ ⟨others, openedOthers, none⟩ :=
      ⟨read, inside, .none⟩
    exact idle.add (.call heads true .nil)

theorem takeToken (alike : Alike R r other) {token twin : Token}
    (rewrites : Token.Rewrites R token twin) :
    Alike R (r.takeToken token) (other.takeToken twin) := by
  cases rewrites with
  | call recalls stands =>
    rcases Token.callee?_eq_some recalls.callee with ⟨kind, -⟩ | ⟨kind, register, -⟩
    · have same := recalls.kind.trans kind
      unfold Reader.takeToken
      rw [kind, same]
      exact ⟨alike.items, alike.opened, .some ⟨kind, _, _, recalls, stands⟩⟩
    · have same := recalls.kind.trans kind
      have unnamed := (Token.operand_of_callee? same recalls.other_callee).1
      rw [takeToken_register kind register, takeToken_register same unnamed]
      exact alike.add (.register kind recalls stands)
  | same none =>
    rcases Token.plain_of_callee? none with plain | kind | kind
    · rw [takeToken_plain plain, takeToken_plain plain]
      exact alike.add (.plain token)
    · unfold Reader.takeToken
      rw [kind]
      obtain ⟨items, opened, pending⟩ := r
      obtain ⟨others, openedOthers, pendingOther⟩ := other
      have inside := alike.opened
      dsimp only at inside ⊢
      cases inside with
      | nil => exact alike.add (.stray token)
      | cons top outer =>
        dsimp only
        rw [top.inGroup]
        split
        · exact alike.add (.nestedGroup token)
        · exact ⟨alike.items, .cons ⟨top.heads, .cons .nil top.arguments, rfl⟩ outer, alike.pending⟩
    · unfold Reader.takeToken
      rw [kind]
      obtain ⟨items, opened, pending⟩ := r
      obtain ⟨others, openedOthers, pendingOther⟩ := other
      have inside := alike.opened
      dsimp only at inside ⊢
      cases inside with
      | nil => exact alike.add (.stray token)
      | @cons _ _ calls otherCalls top outer =>
        dsimp only
        rw [top.inGroup]
        split
        · exact ⟨alike.items, .cons ⟨top.heads, top.arguments, rfl⟩ outer, alike.pending⟩
        · have rest : Alike R ⟨items, calls, pending⟩ ⟨others, otherCalls, pendingOther⟩ :=
            ⟨alike.items, outer, alike.pending⟩
          exact rest.add (top.call true)

theorem take (alike : Alike R r other) {token twin : Token}
    (rewrites : Token.Rewrites R token twin) : Alike R (r.take token) (other.take twin) := by
  have kind : twin.kind = token.kind := by
    cases rewrites with
    | same => rfl
    | call recalls => exact recalls.kind
  unfold Reader.take
  rw [kind]
  have waiting := alike.pending
  cases pending : r.pending with
  | none =>
    rw [pending] at waiting
    cases twinPending : other.pending with
    | none => exact alike.takeToken rewrites
    | some head =>
      rw [twinPending] at waiting
      cases waiting
  | some head =>
    rw [pending] at waiting
    cases twinPending : other.pending with
    | none =>
      rw [twinPending] at waiting
      cases waiting
    | some twinHead =>
      rw [twinPending] at waiting
      cases waiting with
      | some heads =>
        dsimp only
        split
        · exact ⟨alike.items, .cons ⟨heads, .nil, rfl⟩ alike.opened, .none⟩
        · exact alike.settle.takeToken rewrites

end Alike

theorem alike_endCalls {outer others : List Opened}
    (alike : List.Forall₂ (Opened.Alike R) outer others) :
    ∀ {item twin : Item}, Item.Alike R item twin →
      Item.Alike R (endCalls item outer) (endCalls twin others) := by
  induction alike with
  | nil => exact fun same => same
  | cons first _ ih => exact fun same => ih ((first.add same).call false)

theorem Alike.finish {r other : Reader} (alike : Alike R r other) :
    List.Forall₂ (Item.Alike R) r.finish other.finish := by
  have settled := alike.settle
  unfold Reader.finish
  dsimp only
  generalize r.settle = r at settled
  generalize other.settle = other at settled
  obtain ⟨items, opened, pending⟩ := r
  obtain ⟨others, openedOthers, pendingOther⟩ := other
  have inside := settled.opened
  dsimp only at inside ⊢
  cases inside with
  | nil => exact List.rel_reverse settled.items
  | cons top outer =>
    exact List.rel_reverse (.cons (alike_endCalls outer (top.call false)) settled.items)

end Reader

/-- The call tree of rewritten tokens has the same shape. -/
theorem alike_ofTokens {R : Token → String → String → Prop} {tokens twins : List Token}
    (rewrites : List.Forall₂ (Token.Rewrites R) tokens twins) :
    List.Forall₂ (Alike R) (ofTokens tokens) (ofTokens twins) := by
  have start : Reader.Alike R Reader.initial Reader.initial := ⟨.nil, .nil, .none⟩
  have read := List.rel_foldl (P := Reader.Alike R) (R := Token.Rewrites R)
    (fun _ _ alike _ _ same => alike.take same) start rewrites
  exact read.finish

end Item

end NineBit.Asm

import NineBit.Asm.Token
import NineBit.Isa.Action

/-!
# Macro calls in a token sequence

The calls of a token sequence form a tree, which depends on the tokens alone and not on
any definition. A macro's name calls it; a parenthesis directly behind the name opens its arguments.
Within the parentheses each token is one argument, each call is one, and each further pair of
parentheses is a group that is one. `Item.ofTokens` reads the tree in one pass, keeping the calls
that are open.
-/

namespace NineBit.Asm

/-- A node of the call tree. -/
inductive Item where
  /-- A token that stands for itself. -/
  | plain (token : Token)
  /-- A register action whose register is a macro's name. -/
  | register (token : Token)
  /-- A parenthesis that belongs to no call. -/
  | stray (token : Token)
  /-- A parenthesis that opens a group within a group. -/
  | nestedGroup (token : Token)
  /-- A call with its arguments; `closed` tells that their parentheses are closed. -/
  | call (head : Token) (arguments : List (List Item)) (closed : Bool)

namespace Item

/-- A call whose arguments are being read. Arguments and their items come last first. -/
structure Opened where
  head : Token
  arguments : List (List Item)
  inGroup : Bool

/-- What has been read: the items last first, the open calls innermost first, and a macro's name
    that may be followed by arguments. -/
structure Reader where
  items : List Item
  opened : List Opened
  pending : Option Token

namespace Reader

/-- Nothing read. -/
def initial : Reader := ⟨[], [], none⟩

/-- Adds an item to an open call. In a group it joins the group's argument, else it is an argument
    of its own. -/
def Opened.add (o : Opened) (item : Item) : Opened :=
  match o.inGroup, o.arguments with
  | true, group :: others => { o with arguments := (item :: group) :: others }
  | _, others => { o with arguments := [item] :: others }

/-- The call of an open call whose arguments end. -/
def Opened.call (o : Opened) (closed : Bool) : Item :=
  .call o.head (o.arguments.map List.reverse).reverse closed

/-- Adds an item to the innermost open call, or to the sequence if no call is open. -/
def add (r : Reader) (item : Item) : Reader :=
  match r.opened with
  | [] => { r with items := item :: r.items }
  | top :: outer => { r with opened := Opened.add top item :: outer }

/-- Settles that no arguments follow the pending name. -/
def settle (r : Reader) : Reader :=
  match r.pending with
  | none => r
  | some head => { r with pending := none }.add (.call head [] true)

/-- The register action names a register by itself. -/
def namesRegister (token : Token) : Bool :=
  (Isa.Register.ofName? (String.ofList (token.text.toList.drop 1))).isSome

/-- Takes a token when no name is pending. -/
def takeToken (r : Reader) (token : Token) : Reader :=
  match token.kind, r.opened with
  | .macroName, _ => { r with pending := some token }
  | .argumentsStart, [] => r.add (.stray token)
  | .argumentsStart, top :: outer =>
    if top.inGroup then r.add (.nestedGroup token)
    else
      { r with opened := { top with arguments := [] :: top.arguments, inGroup := true } :: outer }
  | .argumentsEnd, [] => r.add (.stray token)
  | .argumentsEnd, top :: outer =>
    if top.inGroup then { r with opened := { top with inGroup := false } :: outer }
    else { r with opened := outer }.add (Opened.call top true)
  | .registerAction, _ => r.add (if namesRegister token then .plain token else .register token)
  | _, _ => r.add (.plain token)

/-- Takes a token. -/
def take (r : Reader) (token : Token) : Reader :=
  match r.pending with
  | none => r.takeToken token
  | some head =>
    if token.kind = .argumentsStart then
      { r with pending := none, opened := ⟨head, [], false⟩ :: r.opened }
    else r.settle.takeToken token

/-- The outermost of some open calls, each ended without its closing parenthesis, the innermost
    first; `item` is the call inside them. -/
def endCalls (item : Item) : List Opened → Item
  | [] => item
  | next :: outer => endCalls (Opened.call (Opened.add next item) false) outer

/-- The items in order, all calls ended. -/
def finish (r : Reader) : List Item :=
  let settled := r.settle
  match settled.opened with
  | [] => settled.items.reverse
  | top :: outer => (endCalls (Opened.call top false) outer :: settled.items).reverse

end Reader

/-- The call tree of a token sequence. -/
def ofTokens (tokens : List Token) : List Item :=
  (tokens.foldl Reader.take Reader.initial).finish

end Item

end NineBit.Asm

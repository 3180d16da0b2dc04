import Mathlib.Data.List.Nodup
import NineBit.Proofs.Asm.Origins
import NineBit.Proofs.Asm.Places
import NineBit.Proofs.Asm.Resolution
import NineBit.Proofs.Asm.Strings

/-!
# Names of labels

A name is a row of word characters; what the lexer takes as a label or as a reference is a name with
a colon behind it or before it (`named_lex`). No name has the character that separates the path
from the name in a key, so a label is told by the form in which it is shown, in the outermost block
as in any other (`Label.display_injective`). The symbols of an image are therefore the labels whose
statements have an address, each of them once (`Output.distinguishes`).
-/

namespace NineBit.Asm

/-- Word characters, at least one. -/
structure IsName (name : String) : Prop where
  some : name ≠ ""
  word : ∀ c ∈ name.toList, Text.isWord c = true

/-- The token of a label is a name and a colon, and that of a reference a colon and a name. -/
structure Token.Named (token : Token) : Prop where
  label : token.kind = .label → ∃ name, IsName name ∧ token.text = name ++ ":"
  reference : token.kind = .reference → ∃ name, IsName name ∧ token.text = ":" ++ name

theorem name_of_label (name : String) :
    String.ofList (name ++ ":").toList.dropLast = name := by
  rw [String.toList_append]
  exact (congrArg String.ofList List.dropLast_concat).trans String.ofList_toList

theorem name_of_reference (name : String) :
    String.ofList ((":" ++ name).toList.drop 1) = name := by
  rw [String.toList_append]
  exact String.ofList_toList

/-! ## What the lexer takes as a name -/

namespace Lexeme

/-- A rule that names a label or a reference. -/
structure Names (text : List Char) (r : Lexeme × Nat) : Prop where
  label : r.1 = .token .label → ∃ word : List Char,
    IsName (String.ofList word) ∧ text.take r.2 = word ++ [':']
  reference : r.1 = .token .reference → ∃ word : List Char,
    IsName (String.ofList word) ∧ text.take r.2 = ':' :: word

section
variable {text : List Char}

theorem Names.ite {c : Prop} [Decidable c] {yes no : Lexeme × Nat} (first : c → Names text yes)
    (second : ¬c → Names text no) : Names text (if c then yes else no) := by
  split
  · exact first ‹_›
  · exact second ‹_›

/-- A rule for something else. -/
theorem Names.other {lexeme : Lexeme} {n : Nat} (label : lexeme ≠ .token .label)
    (reference : lexeme ≠ .token .reference) : Names text (lexeme, n) :=
  ⟨fun same => absurd same label, fun same => absurd same reference⟩

theorem isName_run (some : run Text.isWord text ≠ 0) :
    IsName (String.ofList (text.take (run Text.isWord text))) where
  some empty := take_run_ne_nil some (String.ofList_eq_empty_iff.1 empty)
  word c member := by
    rw [String.toList_ofList] at member
    exact class_of_mem_run member

theorem names_label (some : label text ≠ 0) : Names text (token .label, label text) := by
  refine ⟨fun _ => ?_, nofun⟩
  unfold label at some ⊢
  dsimp only at some ⊢
  split at some
  · rename_i colon
    obtain ⟨rest, same⟩ := List.head?_eq_some_iff.1 colon.2
    rw [if_pos colon, List.take_add, same]
    exact ⟨_, isName_run colon.1, rfl⟩
  · exact absurd rfl some

theorem names_reference (some : reference text ≠ 0) :
    Names text (token .reference, reference text) := by
  refine ⟨nofun, fun _ => ?_⟩
  unfold reference at some ⊢
  split at some
  · obtain ⟨word, length⟩ := before_ne_zero some
    dsimp only
    rw [length, Nat.add_comm, List.take_succ_cons]
    exact ⟨_, isName_run word, rfl⟩
  · exact absurd rfl some

end

theorem names_readPlain (c : Char) (rest : List Char) : Names (c :: rest) (readPlain c rest) := by
  have other {lexeme : Lexeme} {n : Nat} (label : lexeme ≠ .token .label)
      (reference : lexeme ≠ .token .reference) : Names (c :: rest) (lexeme, n) :=
    .other label reference
  unfold readPlain
  dsimp only
  refine .ite (fun _ => other nofun nofun) fun _ => ?_
  refine .ite (fun _ => other nofun nofun) fun _ => ?_
  refine .ite names_label fun _ => ?_
  refine .ite names_reference fun _ => ?_
  repeat' refine .ite (fun _ => other nofun nofun) fun _ => ?_
  split
  · rename_i kind found
    unfold bracket? at found
    split at found
    all_goals
      cases found
      try exact other nofun nofun
  · repeat' refine .ite (fun _ => other nofun nofun) fun _ => ?_
    exact other nofun nofun

theorem names_read (c : Char) (rest : List Char) :
    Names (c :: rest) ((read c rest).1, (read c rest).2 + 1) := by
  unfold read
  split
  · exact .other nofun nofun
  · split
    · rename_i inside _
      rcases readComment_cases 2 inside with same | same
      all_goals
        dsimp only
        rw [same]
        exact .other nofun nofun
    · exact .other nofun nofun
    · rcases readString_cases [] 1 rest with same | ⟨whole, same⟩
      all_goals
        dsimp only
        rw [same]
        exact .other nofun nofun
    · have named := names_readPlain c rest
      have pos := (reads_readPlain c rest).pos
      dsimp only
      rw [Nat.sub_add_cancel pos]
      exact named

end Lexeme

/-- A token of another kind names nothing. -/
theorem Token.Named.other {token : Token} (label : token.kind ≠ .label)
    (reference : token.kind ≠ .reference) : token.Named :=
  ⟨fun same => absurd same label, fun same => absurd same reference⟩

theorem Token.From.named {source : Source} {token : Token} {before used : List Char}
    (made : token.From source before used) : token.Named := by
  obtain ⟨c, rest, lexeme, more, rfl, read, made⟩ := made.read
  have names := Lexeme.names_read c rest
  rw [read] at names
  generalize token.span = span at made
  unfold Lexeme.token? at made
  split at made
  · cases made
    exact .other nofun nofun
  · cases made
    refine ⟨fun kind => ?_, fun kind => ?_⟩
    · cases kind
      obtain ⟨word, isName, same⟩ := names.label rfl
      rw [List.take_succ_cons] at same
      exact ⟨_, isName, by rw [same, String.ofList_append]⟩
    · cases kind
      obtain ⟨word, isName, same⟩ := names.reference rfl
      rw [List.take_succ_cons] at same
      exact ⟨_, isName, by rw [same, ← List.singleton_append, String.ofList_append]⟩
  · split at made
    · cases made
      exact .other nofun nofun
    · cases made
  · split at made
    · cases made
      exact .other nofun nofun
    · cases made
  · cases made

/-- The lexer makes a token of a label or of a reference from a name and a colon. -/
theorem named_lex (source : Source) : ∀ token ∈ (lex source).value.tokens, token.Named := by
  intro token member
  obtain ⟨_, _, made⟩ := (from_lex source).1 token member
  exact made.named

/-! ## Names in a program -/

namespace Parser.Place

variable {limit : Int} {tokens : List Token} {x y : Place}

theorem Next.suffix (next : Next limit x y) : y.rest <:+ x.rest := by
  cases next with
  | read s marks token rest =>
    generalize left : (readStatement limit s token rest).2.rest = remaining
    generalize becomes : (readStatement limit s token rest).1 = t
    have step := State.Step.readStatement limit s token rest
    rw [left, becomes] at step
    cases step with
    | idle _ _ refers => exact refers.suffix
    | statement _ _ refers => exact refers.suffix
    | label | opening | closing => exact List.suffix_cons _ _

/-- What is left at a place is the end of the tokens. -/
theorem Reached.suffix (reached : Reached limit tokens x) : x.rest <:+ tokens := by
  induction reached with
  | refl => exact List.suffix_refl _
  | tail _ next ih => exact next.suffix.trans ih

/-- A label that is declared somewhere has a name, if the tokens are so spelt. -/
theorem isName_of_declared (named : ∀ token ∈ tokens, token.Named) {l : Label}
    (declared : Declared limit tokens l) : IsName l.name := by
  obtain ⟨x, reached, token, rest, same, kind, rfl⟩ := declared
  have member : token ∈ tokens := reached.suffix.subset (same ▸ List.mem_cons_self)
  obtain ⟨name, isName, text⟩ := (named token member).label kind
  rwa [text, name_of_label]

end Parser.Place

/-! ## The form in which a label is shown -/

theorem IsName.separator_not_mem {name : String} (isName : IsName name) :
    Label.separator ∉ name.toList :=
  fun member => absurd (isName.word _ member) (by decide)

namespace Label

variable {l m : Label}

theorem dropWhile_pathText (block : BlockPath) (name : List Char) :
    (pathText block ++ separator :: name).dropWhile (· != separator) = separator :: name := by
  have inside (c : Char) (member : c ∈ pathText block) : (c != separator) = true :=
    bne_iff_ne.2 fun same => separator_not_mem block (same ▸ member)
  rw [List.dropWhile_append_of_pos inside, List.dropWhile_cons_of_neg (by simp)]

/-- A label of the outermost block is shown as its name, any other one as its key. -/
theorem display_eq (l : Label) : l.display = if l.block = [0] then l.name else l.key := by
  have root : String.ofList (pathText l.block) = "0" ↔ l.block = [0] := by
    rw [← String.toList_inj, String.toList_ofList]
    exact ⟨fun same => pathText_injective (y := [0]) same, fun same => by rw [same]; rfl⟩
  unfold display displayKey Text.partition
  rw [toList_key, takeWhile_pathText, dropWhile_pathText, List.drop_succ_cons, List.drop_zero,
    String.ofList_toList]
  exact if_congr root rfl rfl

/-- A key has the separator in it. -/
theorem separator_mem_key (l : Label) : separator ∈ l.key.toList := by
  rw [toList_key]
  exact List.mem_append_right _ List.mem_cons_self

/-- A label is told by the form in which it is shown. -/
theorem display_injective (left : separator ∉ l.name.toList) (right : separator ∉ m.name.toList)
    (same : l.display = m.display) : l = m := by
  rw [display_eq, display_eq] at same
  split at same
  · rename_i outer
    split at same
    · rename_i outer'
      obtain ⟨_, _⟩ := l
      obtain ⟨_, _⟩ := m
      cases outer
      cases outer'
      cases same
      rfl
    · rw [same] at left
      exact absurd (separator_mem_key m) left
  · split at same
    · rw [← same] at right
      exact absurd (separator_mem_key l) right
    · exact key_injective same

end Label

/-! ## Symbols -/

/-- The label table loses nothing: no two of its labels have the same key, nor are two shown alike,
    and a symbol is a label whose statement has an address. -/
structure Output.Distinguishes (o : Output) : Prop where
  keys : (o.program.labels.map fun entry => entry.1.key).Nodup
  displays : (o.program.labels.map fun entry => entry.1.display).Nodup
  /-- Each label whose statement has an address gives one symbol, in the order of declaration. -/
  symbols : o.symbols.map Prod.fst =
    (o.program.labels.filter fun entry => (o.addressOfId? entry.2).isSome).map
      fun entry => entry.1.display
  addresses : ∀ entry ∈ o.program.labels, ∀ address,
    (entry.1.display, address) ∈ o.symbols ↔ o.addressOfId? entry.2 = some address

section
variable {o : Output}

theorem map_fst_symbols (o : Output) : o.symbols.map Prod.fst =
    (o.program.labels.filter fun entry => (o.addressOfId? entry.2).isSome).map
      fun entry => entry.1.display := by
  unfold Output.symbols
  induction o.program.labels with
  | nil => rfl
  | cons entry rest ih =>
    rw [List.filterMap_cons, List.filter_cons]
    cases o.addressOfId? entry.2 with
    | none => exact ih
    | some address => exact congrArg (entry.1.display :: ·) ih

/-- A table in which every label has a name, and none comes twice, loses nothing. -/
theorem Output.distinguishes (distinct : (o.program.labels.map Prod.fst).Nodup)
    (named : ∀ entry ∈ o.program.labels, IsName entry.1.name) : o.Distinguishes := by
  have apart (entry : Label × Nat) (member : entry ∈ o.program.labels) :
      Label.separator ∉ entry.1.name.toList := (named entry member).separator_not_mem
  have entries := List.Nodup.of_map _ distinct
  have same (entry other : Label × Nat) (member : entry ∈ o.program.labels)
      (member' : other ∈ o.program.labels) (labels : entry.1 = other.1) : entry = other :=
    List.inj_on_of_nodup_map distinct member member' labels
  have displays (entry : Label × Nat) (member : entry ∈ o.program.labels) (other : Label × Nat)
      (member' : other ∈ o.program.labels) (shown : entry.1.display = other.1.display) :
      entry = other :=
    same entry other member member'
      (Label.display_injective (apart entry member) (apart other member') shown)
  refine ⟨?_, ?_, map_fst_symbols o, fun entry member address =>
    ⟨fun symbol => ?_, fun found => ?_⟩⟩
  · exact entries.map_on fun entry member other member' keys =>
      same entry other member member' (Label.key_injective keys)
  · exact entries.map_on displays
  · obtain ⟨other, member', listed⟩ := List.mem_filterMap.1 symbol
    obtain ⟨there, found, shown⟩ := Option.map_eq_some_iff.1 listed
    obtain ⟨display, rfl⟩ := Prod.mk.inj shown
    rw [displays entry member other member' display.symm]
    exact found
  · exact List.mem_filterMap.2 ⟨entry, member, by rw [found]; rfl⟩

/-- Every label of a program has a name, if its tokens are so spelt. -/
theorem isName_of_parsed {limit : Int} {tokens : List Token}
    (named : ∀ token ∈ tokens, token.Named) :
    ∀ entry ∈ (parseStatements limit tokens).1.labels, IsName entry.1.name := by
  intro entry member
  have recorded := Parser.Place.Recorded.parsed limit tokens
  exact Parser.Place.isName_of_declared named
    (recorded.declared entry.1 (List.mem_map_of_mem member))

theorem distinguishes_of_parsed {limit : Int} {tokens : List Token}
    (named : ∀ token ∈ tokens, token.Named)
    (parsed : o.program = (parseStatements limit tokens).1) : o.Distinguishes := by
  apply Output.distinguishes
  · rw [parsed]
    exact (Parser.Place.Recorded.parsed limit tokens).distinct
  · rw [parsed]
    exact isName_of_parsed named

end

end NineBit.Asm

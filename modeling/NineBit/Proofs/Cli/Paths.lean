import NineBit.Cli.Option
import NineBit.Proofs.Text.Readback

/-!
# Paths in their normal form

A tool looks at a path as it is written to see whether there is a file, and reads and writes the
path in its normal form, without empty parts and single dots. Where the written path leads to
something, the normal form leads to the same (`Files.find_ofString`): such a part stays in the
directory where it stands. So a file that is there can be read (`Files.read_ofString`).
-/

namespace NineBit

namespace Text

variable {α : Type} {cut : α → Bool}

/-- A piece has no cut in it. -/
theorem not_cut_of_mem_pieces : ∀ {text piece : List α}, piece ∈ pieces cut text →
    ∀ x ∈ piece, cut x = false
  | [], piece, member, x, inside => by
    rw [pieces, List.mem_singleton] at member
    subst member
    cases inside
  | c :: rest, piece, member, x, inside => by
    unfold pieces at member
    split at member
    · rcases List.mem_cons.1 member with rfl | later
      · cases inside
      · exact not_cut_of_mem_pieces later x inside
    · rename_i whole
      split at member
      · rename_i none
        exact absurd none (pieces_ne_nil cut rest)
      · rename_i first more split_
        rcases List.mem_cons.1 member with rfl | later
        · rcases List.mem_cons.1 inside with rfl | inner
          · exact Bool.eq_false_iff.2 whole
          · exact not_cut_of_mem_pieces (split_ ▸ List.mem_cons_self) x inner
        · exact not_cut_of_mem_pieces (split_ ▸ List.mem_cons_of_mem _ later) x inside

theorem parts_cons (mark : Char) (text : String) :
    parts mark (String.singleton mark ++ text) = "" :: parts mark text := by
  simp only [parts, String.toList_append, String.toList_singleton, List.singleton_append, pieces,
    beq_self_eq_true, if_true, List.map_cons]

/-- Parts with the mark between them. -/
theorem parts_intercalate {mark : Char} : ∀ {ps : List String}, ps ≠ [] →
    (∀ part ∈ ps, mark ∉ part.toList) →
      parts mark ((String.singleton mark).intercalate ps) = ps
  | [], proper, _ => absurd rfl proper
  | [part], _, whole => by
    have inner : ∀ c ∈ part.toList, (c == mark) = false := fun c member =>
      beq_eq_false_iff_ne.2 fun same => whole part List.mem_cons_self (same ▸ member)
    rw [String.intercalate_singleton, parts, pieces_whole inner, List.map_singleton,
      String.ofList_toList]
  | part :: next :: ps, _, whole => by
    have inner : ∀ c ∈ part.toList, (c == mark) = false := fun c member =>
      beq_eq_false_iff_ne.2 fun same => whole part List.mem_cons_self (same ▸ member)
    have later := parts_intercalate (List.cons_ne_nil next ps) fun other member =>
      whole other (List.mem_cons_of_mem _ member)
    unfold parts at later ⊢
    rw [String.intercalate_cons_cons, String.toList_append, String.toList_append,
      String.toList_singleton, List.append_assoc, List.singleton_append,
      pieces_append (by simp) _ inner, List.map_cons, later, String.ofList_toList]

end Text

namespace Path

/-- The part leads somewhere else. -/
def isProper (part : String) : Bool := !part.isEmpty && part != "."

theorem components_ofString (text : String) :
    (ofString text).components = (Text.parts '/' text).filter isProper := rfl

theorem slash_not_mem {text part : String} (member : part ∈ (ofString text).components) :
    '/' ∉ part.toList := by
  obtain ⟨listed, -⟩ := List.mem_filter.1 member
  obtain ⟨piece, among, rfl⟩ := List.mem_map.1 listed
  intro slash
  rw [String.toList_ofList] at slash
  exact absurd (Text.not_cut_of_mem_pieces among _ slash) (by decide)

end Path

namespace Cli.Files

variable {files : Files} {place q : Place}

theorem enter_of_not_proper {part : String} (improper : Path.isProper part = false) :
    enter place part = place := by
  have stays : (part.isEmpty || part == ".") = true := by
    cases empty : part.isEmpty with
    | true => rfl
    | false => simpa [Path.isProper, empty] using improper
  rw [enter, if_pos stays]

/-- A way leads to the same place without the parts that lead nowhere else. -/
theorem walk_filter : ∀ {parts : List String} {place : Place},
    files.walk place parts = .ok q → files.walk place (parts.filter Path.isProper) = .ok q
  | [], _, walked => walked
  | part :: rest, place, walked => by
    cases here : files.get? place with
    | none =>
      rw [walk, here] at walked
      cases walked
    | some node =>
      cases node with
      | file bytes =>
        rw [walk, here] at walked
        cases walked
      | directory =>
        rw [walk, here] at walked
        have later := walk_filter walked
        cases proper : Path.isProper part with
        | true => rwa [List.filter_cons_of_pos proper, walk, here]
        | false =>
          rw [enter_of_not_proper proper] at later
          rwa [List.filter_cons_of_neg (by rw [proper]; exact Bool.false_ne_true)]

theorem walk_empty (base : isBase place = true) (rest : List String) :
    files.walk place ("" :: rest) = files.walk place rest := by
  rw [walk, get?, if_pos base]
  rfl

/-- Parts that are joined by slashes lead where they lead one by one. -/
theorem walk_join (base : isBase place = true) {ps : List String}
    (whole : ∀ part ∈ ps, '/' ∉ part.toList) :
    files.walk place (Text.parts '/' ((String.singleton '/').intercalate ps)) =
      files.walk place ps := by
  cases ps with
  | nil => exact walk_empty base []
  | cons part rest => rw [Text.parts_intercalate (List.cons_ne_nil part rest) whole]

/-- A text that starts with a slash is walked from the root on. -/
theorem place_slash (text : String) :
    files.place (String.singleton '/' ++ text) = files.walk ["/"] (Text.parts '/' text) := by
  have filled : (String.singleton '/' ++ text).isEmpty = false := by simp
  have head : (String.singleton '/' ++ text).toList.head? = some '/' := by simp
  rw [place, filled, if_neg Bool.false_ne_true, if_pos head, Text.parts_cons,
    walk_empty (by decide)]

theorem place_relative {text : String} (filled : text.isEmpty = false)
    (head : text.toList.head? ≠ some '/') :
    files.place text = files.walk [] (Text.parts '/' text) := by
  rw [place, filled, if_neg Bool.false_ne_true, if_neg head]

theorem place_ofString_slash {text : String}
    (found : files.place (String.singleton '/' ++ text) = .ok q) :
    files.place (Path.ofString (String.singleton '/' ++ text)).text = .ok q := by
  have whole (part : String)
      (member : part ∈ (Path.ofString (String.singleton '/' ++ text)).components) :
      '/' ∉ part.toList := Path.slash_not_mem member
  have components : (Path.ofString (String.singleton '/' ++ text)).components =
      (Text.parts '/' text).filter Path.isProper := by
    rw [Path.components_ofString, Text.parts_cons, List.filter_cons_of_neg (by decide)]
  rw [place_slash] at found
  have walked := walk_filter found
  rw [← components] at walked
  have root : (Path.ofString (String.singleton '/' ++ text)).root = "/" ∨
      (Path.ofString (String.singleton '/' ++ text)).root = "//" := by
    unfold Path.ofString
    dsimp only
    rw [if_neg (by simp)]
    split
    · exact .inr rfl
    · exact .inl rfl
  unfold Path.text
  rcases root with one | two
  · rw [one, if_neg (by simp), show "/" = String.singleton '/' from rfl, place_slash,
      walk_join (by decide) whole, walked]
  · rw [two, if_neg (by simp), show "/" = String.singleton '/' from rfl,
      show "//" = String.singleton '/' ++ String.singleton '/' from rfl, String.append_assoc,
      place_slash, Text.parts_cons, walk_empty (by decide), walk_join (by decide) whole, walked]

theorem place_ofString_relative {text : String} (filled : text.isEmpty = false)
    (head : text.toList.head? ≠ some '/') (found : files.place text = .ok q) :
    files.place (Path.ofString text).text = .ok q := by
  have whole (part : String) (member : part ∈ (Path.ofString text).components) :
      '/' ∉ part.toList := Path.slash_not_mem member
  have root : (Path.ofString text).root = "" := by
    have none : text.toList.takeWhile (· == '/') = [] := by
      cases chars : text.toList with
      | nil => rfl
      | cons first rest =>
        rw [chars] at head
        exact List.takeWhile_cons_of_neg (by simpa using head)
    unfold Path.ofString
    rw [none]
    rfl
  rw [place_relative filled head] at found
  have walked := walk_filter found
  rw [← Path.components_ofString] at walked
  unfold Path.text
  rw [root]
  cases components : (Path.ofString text).components with
  | nil =>
    -- Only the working directory itself has a normal form without parts.
    rw [components] at walked
    exact walked
  | cons first rest =>
    have listed : first ∈ (Path.ofString text).components := components ▸ List.mem_cons_self
    obtain ⟨-, proper⟩ := List.mem_filter.1 listed
    rw [components] at walked whole
    have begins : ((String.singleton '/').intercalate (first :: rest)).toList.head? =
        first.toList.head? := by
      cases chars : first.toList with
      | nil =>
        rw [String.toList_eq_nil_iff.1 chars] at proper
        cases proper
      | cons c more =>
        cases rest with
        | nil => rw [String.intercalate_singleton, chars]
        | cons next rest =>
          simp only [String.intercalate_cons_cons, String.toList_append, chars, List.cons_append,
            List.head?_cons]
    have filled : ((String.singleton '/').intercalate (first :: rest)).toList.head? ≠ none := by
      rw [begins]
      intro empty
      rw [String.toList_eq_nil_iff.1 (List.head?_eq_none_iff.1 empty)] at proper
      cases proper
    rw [if_neg (by simp), String.empty_append, show "/" = String.singleton '/' from rfl,
      place_relative, walk_join rfl whole, walked]
    · refine Bool.eq_false_iff.2 fun empty => filled ?_
      rw [String.isEmpty_iff.1 empty]
      rfl
    · rw [begins]
      intro slash
      exact whole first List.mem_cons_self (List.mem_of_mem_head? slash)

/-- The normal form of a path that leads to a place leads to the same one. -/
theorem place_ofString {text : String} (found : files.place text = .ok q) :
    files.place (Path.ofString text).text = .ok q := by
  have filled : text.isEmpty = false := by
    cases empty : text.isEmpty with
    | false => rfl
    | true =>
      rw [place, if_pos empty] at found
      cases found
  by_cases slash : text.toList.head? = some '/'
  · obtain ⟨rest, chars⟩ := List.head?_eq_some_iff.1 slash
    have whole : text = String.singleton '/' ++ String.ofList rest := by
      rw [← String.toList_inj, chars]
      simp
    rw [whole] at found ⊢
    exact place_ofString_slash found
  · exact place_ofString_relative filled slash found

theorem find_ofString {text : String} {node : Node} (found : files.find text = .ok node) :
    files.find (Path.ofString text).text = .ok node := by
  unfold find at found ⊢
  cases walked : files.place text with
  | error fault => rw [walked] at found; cases found
  | ok q =>
    rw [walked] at found
    rw [place_ofString walked]
    exact found

/-- A file that is there can be read. -/
theorem read_ofString {text : String} (there : files.isFile text = true) :
    ∃ bytes, files.read (Path.ofString text).text = .ok bytes := by
  unfold isFile at there
  split at there
  · rename_i bytes found
    refine ⟨bytes, ?_⟩
    rw [read, find_ofString found]
  · cases there

end Cli.Files

end NineBit

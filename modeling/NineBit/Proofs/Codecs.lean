import Mathlib.Data.List.TakeWhile
import NineBit.Image
import NineBit.Proofs.Machine.Calls
import NineBit.Proofs.Text.Readback

/-!
# Writing and reading images

The hexadecimal form gives back the words it was made of, however wide they are
(`decodeHex_encodeHex`). The binary form is exact in both directions (`encodeBin_eq_ok_iff`): a list
of words has a form just when each of them has sixteen bits, and bytes are a form just when their
number is even. An image that has gone through either form therefore loads as the assembled words do
(`codecs_inverse`).
-/

namespace NineBit.Image

open NineBit.Text

/-! ## The hexadecimal form -/

/-- The remark at the head of the hexadecimal form. -/
def remark (words : List Int) : String := s!"# s9b image, {words.length} words"

theorem lines_encodeHex (words : List Int) (bits : Int) :
    lines (encodeHex words bits) = remark words :: words.map (writeInt 16 (hexWidth bits)) := by
  unfold encodeHex
  dsimp only
  rw [intercalate_newline]
  refine lines_join fun l member c inside => ?_
  rcases List.mem_cons.1 member with rfl | digits
  · have spelt : (remark words).toList =
        "# s9b image, ".toList ++ (Nat.toDigits 10 words.length ++ " words".toList) := by
      simp [remark, toString, Nat.repr_eq_ofList_toDigits]
    change c ∈ (remark words).toList at inside
    rw [spelt] at inside
    have heading : "# s9b image, ".toList.any isLineEnd = false := rfl
    have ending : " words".toList.any isLineEnd = false := rfl
    rcases List.mem_append.1 inside with head | tail
    · exact Bool.eq_false_iff.2 (List.any_eq_false.1 heading c head)
    · rcases List.mem_append.1 tail with count | last
      · exact (isDigitChar_of_mem (by decide) (by decide) count).apart.2.1
      · exact Bool.eq_false_iff.2 (List.any_eq_false.1 ending c last)
  · obtain ⟨word, -, rfl⟩ := List.mem_map.1 digits
    exact (writeInt_apart (by decide) (by decide) inside).2.1

/-- A remark by itself says nothing. -/
theorem content_remark (words : List Int) : trim (before '#' (remark words)) = "" := by
  have first : (remark words).toList = '#' :: (remark words).toList.tail := by
    simp only [remark, String.toList_append]
    rfl
  unfold before
  rw [first]
  rfl

/-- The line of a word says just its digits. -/
theorem content_word (width : Nat) (word : Int) :
    trim (before '#' (writeInt 16 width word)) = writeInt 16 width word := by
  have apart (c : Char) (member : c ∈ (writeInt 16 width word).toList) :=
    writeInt_apart (by decide) (by decide) member
  have all : (writeInt 16 width word).toList.takeWhile (· != '#') =
      (writeInt 16 width word).toList := by
    refine List.takeWhile_eq_self_iff.2 fun c member => ?_
    exact bne_iff_ne.2 (apart c member).2.2
  unfold before trim
  rw [all, String.ofList_toList, dropWhile_of_all fun c member => (apart c member).1,
    dropWhile_of_all fun c member => (apart c (List.mem_reverse.1 member)).1, List.reverse_reverse,
    String.ofList_toList]

theorem decodeHexLines_words (width : Nat) (words : List Int) :
    ∀ (number : Nat) (before : List Int),
      decodeHexLines number before (words.map (writeInt 16 width)) =
        .ok (before.reverse ++ words) := by
  induction words with
  | nil =>
    intro number before
    rw [List.append_nil]
    rfl
  | cons word rest ih =>
    intro number before
    have some : (writeInt 16 width word).isEmpty = false := by
      rw [Bool.eq_false_iff, ne_eq, String.isEmpty_iff]
      intro empty
      exact writeInt_ne_empty 16 width word (by rw [empty]; rfl)
    rw [List.map_cons, decodeHexLines, content_word, some, readInt?_writeInt (.inr ⟨rfl, rfl⟩)]
    dsimp only
    rw [if_neg Bool.false_ne_true, ih, List.reverse_cons, List.append_assoc]
    rfl

/-- Reading the hexadecimal form gives the words back. -/
theorem decodeHex_encodeHex (words : List Int) (bits : Int) :
    decodeHex (encodeHex words bits) = .ok words := by
  unfold decodeHex
  rw [lines_encodeHex, decodeHexLines, content_remark, if_pos (by rfl)]
  exact decodeHexLines_words _ words 2 []

theorem encodeHexUnchecked_eq_ok (words : List Int) {bits : Int} (wide : 1 ≤ bits) :
    encodeHexUnchecked words bits = .ok (encodeHex words bits) := by
  have places : ¬(hexPlaces bits < 0 ∧ words.length ≠ 0) := by
    unfold hexPlaces
    omega
  unfold encodeHexUnchecked checkPlaces
  rw [if_neg places]
  rfl

/-! ## The binary form -/

/-- The bytes of a word are those whose word it is. -/
theorem wordBytes_eq_ok_iff {word : Int} {bytes : List UInt8} :
    wordBytes word = .ok bytes ↔
      ∃ lower higher : UInt8, bytes = [lower, higher] ∧
        word = ((lower.toNat + 256 * higher.toNat : Nat) : Int) := by
  unfold wordBytes
  constructor
  · intro written
    split at written
    · cases written
      refine ⟨_, _, rfl, ?_⟩
      rw [UInt8.toNat_ofNat', UInt8.toNat_ofNat']
      omega
    · cases written
  · rintro ⟨lower, higher, rfl, rfl⟩
    have low := lower.toNat_lt
    have high := higher.toNat_lt
    have first : (lower.toNat + 256 * higher.toNat) % 256 = lower.toNat := by omega
    have second : (lower.toNat + 256 * higher.toNat) / 256 = higher.toNat := by omega
    rw [if_pos (by omega), Int.toNat_natCast, first, second, UInt8.ofNat_toNat, UInt8.ofNat_toNat]

theorem wordBytes_eq_error_iff {word : Int} {e : ImageError} :
    wordBytes word = .error e ↔ e = .wideWord ∧ (word < 0 ∨ 65535 < word) := by
  unfold wordBytes
  split
  · constructor
    · exact fun none => nomatch none
    · omega
  · constructor
    · intro failed
      cases failed
      exact ⟨rfl, by omega⟩
    · rintro ⟨rfl, -⟩
      rfl

theorem encodeBin_cons (word : Int) (words : List Int) :
    encodeBin (word :: words) =
      (wordBytes word).bind fun bytes => (encodeBin words).map (bytes ++ ·) := by
  unfold encodeBin
  rw [List.mapM_cons]
  cases wordBytes word with
  | error e => rfl
  | ok bytes => cases words.mapM wordBytes <;> rfl

/-- Words have a binary form just when bytes in pairs are theirs. -/
theorem encodeBin_eq_ok {words : List Int} : ∀ {bytes : List UInt8},
    encodeBin words = .ok bytes ↔ bytes.length % 2 = 0 ∧ pairWords bytes = words := by
  induction words with
  | nil =>
    intro bytes
    match bytes with
    | [] => exact ⟨fun _ => ⟨rfl, rfl⟩, fun _ => rfl⟩
    | [_] => exact ⟨(nomatch ·), fun odd => absurd odd.1 Nat.one_ne_zero⟩
    | _ :: _ :: _ => exact ⟨(nomatch ·), fun same => (nomatch same.2)⟩
  | cons word words ih =>
    intro bytes
    rw [encodeBin_cons]
    constructor
    · intro written
      cases first : wordBytes word with
      | error e =>
        rw [first] at written
        cases written
      | ok front =>
        cases later : encodeBin words with
        | error e =>
          rw [first, later] at written
          cases written
        | ok rest =>
          rw [first, later] at written
          cases written
          obtain ⟨lower, higher, rfl, rfl⟩ := wordBytes_eq_ok_iff.1 first
          obtain ⟨even, rfl⟩ := ih.1 later
          refine ⟨?_, rfl⟩
          simp only [List.length_append, List.length_cons, List.length_nil]
          omega
    · rintro ⟨even, same⟩
      match bytes with
      | [] => cases same
      | [_] => cases even
      | lower :: higher :: rest =>
        rw [pairWords, List.cons.injEq] at same
        rw [List.length_cons, List.length_cons] at even
        rw [wordBytes_eq_ok_iff.2 ⟨lower, higher, rfl, same.1.symm⟩, ih.2 ⟨by omega, same.2⟩]
        rfl

/-- The two directions of the binary form are inverse to each other. -/
theorem encodeBin_eq_ok_iff {words : List Int} {bytes : List UInt8} :
    encodeBin words = .ok bytes ↔ decodeBin bytes = .ok words := by
  rw [encodeBin_eq_ok]
  unfold decodeBin
  constructor
  · rintro ⟨even, rfl⟩
    rw [if_pos even]
  · intro read
    split at read
    · rename_i even
      cases read
      exact ⟨even, rfl⟩
    · cases read

/-- Words without a binary form: one of them has more than sixteen bits, or is below zero. -/
theorem encodeBin_eq_error_iff {words : List Int} {e : ImageError} :
    encodeBin words = .error e ↔ e = .wideWord ∧ ∃ word ∈ words, word < 0 ∨ 65535 < word := by
  induction words with
  | nil => exact ⟨(nomatch ·), fun ⟨_, _, member, _⟩ => (nomatch member)⟩
  | cons word words ih =>
    simp only [encodeBin_cons, List.mem_cons, exists_eq_or_imp]
    cases first : wordBytes word with
    | error other =>
      obtain ⟨rfl, wide⟩ := wordBytes_eq_error_iff.1 first
      exact ⟨fun failed => by cases failed; exact ⟨rfl, .inl wide⟩, fun same => by rw [same.1]; rfl⟩
    | ok front =>
      have narrow : ¬(word < 0 ∨ 65535 < word) := fun wide => by
        rw [wordBytes_eq_error_iff.2 ⟨rfl, wide⟩] at first
        cases first
      rw [or_iff_right narrow, ← ih]
      cases encodeBin words with
      | error other => exact ⟨fun failed => by cases failed; rfl, fun same => by cases same; rfl⟩
      | ok rest => exact ⟨(nomatch ·), (nomatch ·)⟩

theorem decodeBin_eq_error_iff {bytes : List UInt8} {e : ImageError} :
    decodeBin bytes = .error e ↔ e = .oddLength bytes.length ∧ bytes.length % 2 = 1 := by
  unfold decodeBin
  split
  · constructor
    · exact fun none => nomatch none
    · omega
  · constructor
    · intro failed
      cases failed
      exact ⟨rfl, by omega⟩
    · rintro ⟨rfl, -⟩
      rfl

end NineBit.Image

namespace NineBit

open Image

/-! ## Images between the tools -/

/-- Loading words leads a session's processor where loading an image does, and both are loaded. -/
structure Machine.Session.LoadsAlike (s : Session) (words : List Int) (o : Asm.Output) : Prop where
  words_fit : (s.loadWords words).2 = none
  output_fits : (s.loadOutput o).2 = none
  cpu_eq : (s.loadWords words).1.cpu = (s.loadOutput o).1.cpu

/-- The words of an image that a session has assembled load as the image does. -/
theorem Machine.Session.loadsAlike_integers {config : Config} {s : Session}
    (reachable : s.Reachable config) {source : Source} {o : Asm.Output}
    (assembled : (Asm.Assembly.ofSource config source).output = some o) :
    s.LoadsAlike o.integers o := by
  have keeps := reachable.keeps
  rw [← keeps.config_eq] at assembled
  obtain ⟨cpu, loaded⟩ := keeps.loads assembled
  constructor
  · rw [loadWords, load_of_ok loaded]
  · rw [loadOutput, load_of_ok loaded]
  · rw [loadWords, loadOutput, load_of_ok loaded, load_of_ok loaded]
    rfl

/-- Each form of an image gives back what was put into it, and fails on what it cannot hold. -/
theorem Image.codecs_inverse :
    (∀ (words : List Int) (bits : Int), 1 ≤ bits →
      ∃ text, encodeHexUnchecked words bits = .ok text ∧ decodeHex text = .ok words) ∧
    (∀ (words : List Int) (bytes : List UInt8),
      encodeBin words = .ok bytes ↔ decodeBin bytes = .ok words) ∧
    (∀ (words : List Int) (e : ImageError), encodeBin words = .error e ↔
      e = .wideWord ∧ ∃ word ∈ words, word < 0 ∨ 65535 < word) ∧
    (∀ (bytes : List UInt8) (e : ImageError), decodeBin bytes = .error e ↔
      e = .oddLength bytes.length ∧ bytes.length % 2 = 1) ∧
    ∀ (config : Config) (s : Machine.Session), s.Reachable config →
      ∀ (source : Source) (o : Asm.Output),
        (Asm.Assembly.ofSource config source).output = some o →
          (∃ text words, encodeHexUnchecked o.integers config.wordBits = .ok text ∧
            decodeHex text = .ok words ∧ s.LoadsAlike words o) ∧
          ∀ bytes, encodeBin o.integers = .ok bytes →
            ∃ words, decodeBin bytes = .ok words ∧ s.LoadsAlike words o := by
  refine ⟨fun words bits wide => ?_, fun _ _ => encodeBin_eq_ok_iff,
    fun _ _ => encodeBin_eq_error_iff, fun _ _ => decodeBin_eq_error_iff, ?_⟩
  · exact ⟨_, encodeHexUnchecked_eq_ok words wide, decodeHex_encodeHex words bits⟩
  · intro config s reachable source o assembled
    have alike := Machine.Session.loadsAlike_integers reachable assembled
    have wide : 1 ≤ (config.wordBits : Int) := by
      have := config.nine_le_wordBits
      omega
    constructor
    · exact ⟨_, _, encodeHexUnchecked_eq_ok _ wide, decodeHex_encodeHex _ _, alike⟩
    · intro bytes written
      exact ⟨_, encodeBin_eq_ok_iff.1 written, alike⟩

/-- A word wider than the three digits of nine bits, two bytes that make no word by themselves, and
    an image of one word. -/
theorem Image.codecs_inverse_wide :
    (∃ text, encodeHexUnchecked [5, 4096] 9 = .ok text ∧ decodeHex text = .ok [5, 4096]) ∧
    encodeBin [511] = .ok [255, 1] ∧
    ∃ o, (Asm.Assembly.ofSource .standard ⟨"text", "!done"⟩).output = some o ∧
      ∃ text words, encodeHexUnchecked o.integers 9 = .ok text ∧ decodeHex text = .ok words ∧
        (Machine.Session.initial .standard).LoadsAlike words o := by
  have ends : (Asm.Assembly.ofSource .standard ⟨"text", "!done"⟩).output.isSome = true := by
    decide +kernel
  obtain ⟨o, assembled⟩ := Option.isSome_iff_exists.1 ends
  refine ⟨codecs_inverse.1 _ 9 (by decide), ?_, o, assembled, ?_⟩
  · exact (codecs_inverse.2.1 _ _).2 rfl
  · exact (codecs_inverse.2.2.2.2 .standard _ .initial _ o assembled).1

end NineBit

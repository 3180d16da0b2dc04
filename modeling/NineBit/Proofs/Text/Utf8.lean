import NineBit.Text.Utf8

/-!
# Text in bytes and back

Decoding gives the text whose bytes these are, and fails where they are the bytes of no text
(`decodeUtf8_eq_ok_iff`). A character is read off its bytes one by one (`utf8Step_encode`), and what
is read as a character are its bytes (`encode_of_utf8Step`): the tests on the second byte exclude
what no character has, a code that is too small for the number of its bytes, one in the range that
is left out for pairs, or one beyond the last.
-/

namespace NineBit.Text

/-! ## Bytes -/

section
variable {n lead : Nat} {b : UInt8}

theorem ofNat_lt (small : n < 256) : UInt8.ofNat n < b ↔ n < b.toNat := by
  rw [UInt8.lt_iff_toNat_lt, UInt8.toNat_ofNat_of_lt' small]

theorem ofNat_eq (small : n < 256) : UInt8.ofNat n = b ↔ n = b.toNat := by
  rw [← UInt8.toNat_inj, UInt8.toNat_ofNat_of_lt' small]

theorem isContinuation_iff {b : UInt8} :
    isContinuation b = true ↔ 128 ≤ b.toNat ∧ b.toNat < 192 := by
  unfold isContinuation
  rw [Bool.and_eq_true, decide_eq_true_iff, decide_eq_true_iff, UInt8.le_iff_toNat_le,
    UInt8.lt_iff_toNat_lt]
  rfl

theorem secondByteFits_iff {lead second : UInt8} : secondByteFits lead second = true ↔
    (128 ≤ second.toNat ∧ second.toNat < 192) ∧ (lead.toNat = 224 → 160 ≤ second.toNat) ∧
      (lead.toNat = 237 → second.toNat < 160) ∧ (lead.toNat = 240 → 144 ≤ second.toNat) ∧
      (lead.toNat = 244 → second.toNat < 144) := by
  unfold secondByteFits
  simp only [Bool.and_eq_true, isContinuation_iff, Bool.not_eq_true', Bool.and_eq_false_iff,
    beq_eq_false_iff_ne, ne_eq, ← UInt8.toNat_inj, decide_eq_false_iff_not, ge_iff_le,
    UInt8.lt_iff_toNat_lt, UInt8.le_iff_toNat_le, UInt8.reduceToNat]
  omega

/-- The bytes after the first one are marked by their two upper bits. -/
theorem tail_lt : n % 64 + 128 < 256 := by omega

theorem isContinuation_tail : isContinuation (UInt8.ofNat (n % 64 + 128)) = true := by
  rw [isContinuation_iff, UInt8.toNat_ofNat_of_lt' tail_lt]
  omega

theorem tail_bits : (UInt8.ofNat (n % 64 + 128)).toNat % 64 = n % 64 := by
  rw [UInt8.toNat_ofNat_of_lt' tail_lt]
  omega

/-- A byte after the first two adds its bits. -/
theorem continueUtf8_tail (value size more : Nat) (rest : List UInt8) :
    continueUtf8 value size (more + 1) (UInt8.ofNat (n % 64 + 128) :: rest) =
      continueUtf8 (value * 64 + n % 64) (size + 1) more rest := by
  rw [continueUtf8, if_pos isContinuation_tail, tail_bits]

theorem secondByteFits_tail (small : lead < 256) (three : lead = 224 → 32 ≤ n % 64)
    (pairs : lead = 237 → n % 64 < 32) (four : lead = 240 → 16 ≤ n % 64)
    (last : lead = 244 → n % 64 < 16) :
    secondByteFits (UInt8.ofNat lead) (UInt8.ofNat (n % 64 + 128)) = true := by
  rw [secondByteFits_iff, UInt8.toNat_ofNat_of_lt' tail_lt, UInt8.toNat_ofNat_of_lt' small]
  omega

/-- A character of two bytes or more is begun by its first two. -/
theorem utf8Step_tail {bits more : Nat} (rest : List UInt8) (small : lead < 256)
    (fits : secondByteFits (UInt8.ofNat lead) (UInt8.ofNat (n % 64 + 128)) = true)
    (form : (194 ≤ lead ∧ lead < 224 ∧ bits = lead % 32 ∧ more = 0) ∨
      (224 ≤ lead ∧ lead < 240 ∧ bits = lead % 16 ∧ more = 1) ∨
      (240 ≤ lead ∧ lead < 245 ∧ bits = lead % 8 ∧ more = 2)) :
    utf8Step (UInt8.ofNat lead) (UInt8.ofNat (n % 64 + 128) :: rest) =
      continueUtf8 (bits * 64 + n % 64) 2 more rest := by
  unfold utf8Step
  simp only [fits, if_true, ofNat_lt small, UInt8.toNat_ofNat_of_lt' small, tail_bits,
    UInt8.reduceToNat]
  rcases form with ⟨low, high, rfl, rfl⟩ | ⟨low, high, rfl, rfl⟩ | ⟨low, high, rfl, rfl⟩
  · rw [if_neg (by omega), if_neg (by omega), if_pos high]
  · rw [if_neg (by omega), if_neg (by omega), if_neg (by omega), if_pos high]
  · rw [if_neg (by omega), if_neg (by omega), if_neg (by omega), if_neg (by omega), if_pos high]

/-- Bytes that continue a character, and what they make of it. -/
theorem continueUtf8_eq {value size more n : Nat} {rest : List UInt8} {c : Char}
    (step : continueUtf8 value size more rest = .character c n) :
    ∃ tail after, rest = tail ++ after ∧ tail.length = more ∧ n = size + more ∧
      (∀ b ∈ tail, isContinuation b = true) ∧
      c = Char.ofNat (tail.foldl (fun sum b => sum * 64 + b.toNat % 64) value) := by
  induction more generalizing value size rest with
  | zero =>
    rw [continueUtf8] at step
    cases step
    exact ⟨[], rest, rfl, rfl, rfl, nofun, rfl⟩
  | succ more ih =>
    cases rest with
    | nil =>
      rw [continueUtf8] at step
      cases step
    | cons b rest =>
      rw [continueUtf8] at step
      split at step
      · rename_i continues
        obtain ⟨tail, after, rfl, rfl, rfl, all, rfl⟩ := ih step
        refine ⟨b :: tail, after, rfl, rfl, by omega, ?_, rfl⟩
        rintro other member
        rcases List.mem_cons.1 member with rfl | later
        · exact continues
        · exact all other later
      · cases step

end

/-! ## Characters -/

/-- The bytes of a character are read as that character. -/
theorem utf8Step_encode (c : Char) (rest : List UInt8) : ∃ lead tail,
    String.utf8EncodeChar c = lead :: tail ∧
      utf8Step lead (tail ++ rest) = .character c (tail.length + 1) := by
  have valid : c.val.toNat < 55296 ∨ 57343 < c.val.toNat ∧ c.val.toNat < 1114112 := c.valid
  have same : Char.ofNat c.val.toNat = c := Char.ofNat_toNat c
  unfold String.utf8EncodeChar
  dsimp only
  generalize c.val.toNat = v at valid same ⊢
  split
  · rename_i one
    refine ⟨_, _, rfl, ?_⟩
    unfold utf8Step
    simp only [ofNat_lt (n := v) (by omega), UInt8.reduceToNat]
    rw [if_pos (by omega), UInt8.toNat_ofNat_of_lt' (by show v < 256; omega), same]
    rfl
  split
  · refine ⟨_, _, rfl, ?_⟩
    have fits : secondByteFits (UInt8.ofNat (v / 64 % 32 + 192))
        (UInt8.ofNat (v % 64 + 128)) = true :=
      secondByteFits_tail (by omega) (by omega) (by omega) (by omega) (by omega)
    rw [List.singleton_append, utf8Step_tail rest (by omega) fits
      (.inl ⟨by omega, by omega, rfl, rfl⟩), continueUtf8]
    have value : (v / 64 % 32 + 192) % 32 * 64 + v % 64 = v := by omega
    rw [value, same]
    rfl
  split
  · refine ⟨_, _, rfl, ?_⟩
    have fits : secondByteFits (UInt8.ofNat (v / 4096 % 16 + 224))
        (UInt8.ofNat (v / 64 % 64 + 128)) = true :=
      secondByteFits_tail (by omega) (by omega) (by omega) (by omega) (by omega)
    rw [List.cons_append, utf8Step_tail _ (by omega) fits
      (.inr (.inl ⟨by omega, by omega, rfl, rfl⟩)), List.cons_append, continueUtf8_tail,
      continueUtf8]
    have value : ((v / 4096 % 16 + 224) % 16 * 64 + v / 64 % 64) * 64 + v % 64 = v := by omega
    rw [value, same]
    rfl
  · refine ⟨_, _, rfl, ?_⟩
    have fits : secondByteFits (UInt8.ofNat (v / 262144 % 8 + 240))
        (UInt8.ofNat (v / 4096 % 64 + 128)) = true :=
      secondByteFits_tail (by omega) (by omega) (by omega) (by omega) (by omega)
    rw [List.cons_append, utf8Step_tail _ (by omega) fits
      (.inr (.inr ⟨by omega, by omega, rfl, rfl⟩)), List.cons_append, continueUtf8_tail,
      List.cons_append, continueUtf8_tail, continueUtf8]
    have value : (((v / 262144 % 8 + 240) % 8 * 64 + v / 4096 % 64) * 64 + v / 64 % 64) * 64 +
        v % 64 = v := by omega
    rw [value, same]
    rfl

theorem val_ofNat {v : Nat} (valid : v.isValidChar) : (Char.ofNat v).val.toNat = v := by
  rw [Char.ofNat, dif_pos valid]
  rfl

section
variable {lead second third fourth : UInt8}

theorem encode_two (low : 194 ≤ lead.toNat) (high : lead.toNat < 224)
    (fits : secondByteFits lead second = true) :
    String.utf8EncodeChar (Char.ofNat (lead.toNat % 32 * 64 + second.toNat % 64)) =
      [lead, second] := by
  obtain ⟨range, -⟩ := secondByteFits_iff.1 fits
  unfold String.utf8EncodeChar
  rw [val_ofNat (.inl (by omega)), if_neg (by omega), if_pos (by omega)]
  simp only [List.cons_eq_cons, and_true]
  rw [ofNat_eq (by omega), ofNat_eq (by omega)]
  omega

theorem encode_three (low : 224 ≤ lead.toNat) (high : lead.toNat < 240)
    (fits : secondByteFits lead second = true) (last : isContinuation third = true) :
    String.utf8EncodeChar (Char.ofNat
      ((lead.toNat % 16 * 64 + second.toNat % 64) * 64 + third.toNat % 64)) =
        [lead, second, third] := by
  have bounds := secondByteFits_iff.1 fits
  have range := isContinuation_iff.1 last
  unfold String.utf8EncodeChar
  rw [val_ofNat (by unfold Nat.isValidChar; omega), if_neg (by omega), if_neg (by omega),
    if_pos (by omega)]
  simp only [List.cons_eq_cons, and_true]
  rw [ofNat_eq (by omega), ofNat_eq (by omega), ofNat_eq (by omega)]
  omega

theorem encode_four (low : 240 ≤ lead.toNat) (high : lead.toNat < 245)
    (fits : secondByteFits lead second = true) (next : isContinuation third = true)
    (last : isContinuation fourth = true) :
    String.utf8EncodeChar (Char.ofNat (((lead.toNat % 8 * 64 + second.toNat % 64) * 64 +
      third.toNat % 64) * 64 + fourth.toNat % 64)) = [lead, second, third, fourth] := by
  have bounds := secondByteFits_iff.1 fits
  have middle := isContinuation_iff.1 next
  have range := isContinuation_iff.1 last
  unfold String.utf8EncodeChar
  rw [val_ofNat (by unfold Nat.isValidChar; omega), if_neg (by omega), if_neg (by omega),
    if_neg (by omega)]
  simp only [List.cons_eq_cons, and_true]
  rw [ofNat_eq (by omega), ofNat_eq (by omega), ofNat_eq (by omega), ofNat_eq (by omega)]
  omega

end

/-- What is read as a character are the bytes of that character. -/
theorem encode_of_utf8Step {lead : UInt8} {rest : List UInt8} {c : Char} {n : Nat}
    (step : utf8Step lead rest = .character c n) :
    ∃ tail after, rest = tail ++ after ∧ n = tail.length + 1 ∧
      String.utf8EncodeChar c = lead :: tail := by
  unfold utf8Step at step
  extract_lets sequence at step
  have begun {bits more : Nat} (ran : sequence bits more = .character c n) :
      ∃ second tail after, rest = second :: (tail ++ after) ∧ n = tail.length + 2 ∧
        tail.length = more ∧ secondByteFits lead second = true ∧
        (∀ b ∈ tail, isContinuation b = true) ∧
        c = Char.ofNat (tail.foldl (fun sum b => sum * 64 + b.toNat % 64)
          (bits * 64 + second.toNat % 64)) := by
    unfold sequence at ran
    split at ran
    · cases ran
    · rename_i second tail
      split at ran
      · rename_i fits
        obtain ⟨tail, after, rfl, rfl, rfl, all, rfl⟩ := continueUtf8_eq ran
        exact ⟨second, tail, after, rfl, Nat.add_comm .., rfl, fits, all, rfl⟩
      · cases ran
  clear_value sequence
  simp only [UInt8.lt_iff_toNat_lt, UInt8.reduceToNat] at step
  split at step
  · rename_i one
    cases step
    refine ⟨[], rest, rfl, rfl, ?_⟩
    unfold String.utf8EncodeChar
    rw [val_ofNat (.inl (by omega)), if_pos (by omega), UInt8.ofNat_toNat]
  split at step
  · cases step
  split at step
  · obtain ⟨second, tail, after, rfl, rfl, none, fits, -, rfl⟩ := begun step
    cases List.length_eq_zero_iff.1 none
    exact ⟨[second], after, rfl, rfl, encode_two (by omega) (by omega) fits⟩
  split at step
  · obtain ⟨second, tail, after, rfl, rfl, one, fits, all, rfl⟩ := begun step
    obtain ⟨third, rfl⟩ := List.length_eq_one_iff.1 one
    exact ⟨[second, third], after, rfl, rfl,
      encode_three (by omega) (by omega) fits (all third (by simp))⟩
  split at step
  · obtain ⟨second, tail, after, rfl, rfl, two, fits, all, rfl⟩ := begun step
    obtain ⟨third, tail, rfl⟩ := List.exists_cons_of_length_eq_add_one two
    obtain ⟨fourth, rfl⟩ := List.length_eq_one_iff.1 (Nat.succ.inj two)
    exact ⟨[second, third, fourth], after, rfl, rfl,
      encode_four (by omega) (by omega) fits (all third (by simp)) (all fourth (by simp))⟩
  · cases step

/-! ## Texts -/

theorem decodeFrom_encode : ∀ (cs chars : List Char) (position : Nat),
    decodeFrom position chars (cs.flatMap String.utf8EncodeChar) =
      .ok (String.ofList (chars.reverse ++ cs))
  | [], chars, position => by rw [List.flatMap_nil, decodeFrom, List.append_nil]
  | c :: cs, chars, position => by
    obtain ⟨lead, tail, bytes, step⟩ := utf8Step_encode c (cs.flatMap String.utf8EncodeChar)
    rw [List.flatMap_cons, bytes, List.cons_append, decodeFrom, step]
    dsimp only
    rw [Nat.add_sub_cancel, List.drop_left, decodeFrom_encode cs, List.reverse_cons,
      List.append_assoc, List.singleton_append]

theorem encode_of_decodeFrom {bytes : List UInt8} {position : Nat} {chars : List Char}
    {text : String} (decoded : decodeFrom position chars bytes = .ok text) :
    ∃ cs, text = String.ofList (chars.reverse ++ cs) ∧
      bytes = cs.flatMap String.utf8EncodeChar := by
  fun_induction decodeFrom position chars bytes with
  | case1 position chars =>
    cases decoded
    exact ⟨[], by rw [List.append_nil], rfl⟩
  | case2 position chars lead rest c size step ih =>
    obtain ⟨tail, after, rfl, rfl, bytes⟩ := encode_of_utf8Step step
    rw [Nat.add_sub_cancel, List.drop_left] at ih decoded
    obtain ⟨cs, rfl, rfl⟩ := ih decoded
    refine ⟨c :: cs, ?_, ?_⟩
    · rw [List.reverse_cons, List.append_assoc, List.singleton_append]
    · rw [List.flatMap_cons, bytes, List.cons_append]
  | case3 position chars lead rest why size step => cases decoded

theorem toList_loop (bytes : ByteArray) (i : Nat) (passed : List UInt8) :
    ByteArray.toList.loop bytes i passed = passed.reverse ++ bytes.data.toList.drop i := by
  fun_induction ByteArray.toList.loop bytes i passed with
  | case1 i passed inside ih =>
    have lt : i < bytes.data.toList.length := by rwa [Array.length_toList]
    have here : bytes.get! i = bytes.data.toList[i] := by
      rw [Array.getElem_toList]
      exact getElem!_pos bytes.data i inside
    rw [ih, List.reverse_cons, List.append_assoc, List.singleton_append, here,
      ← List.drop_eq_getElem_cons lt]
  | case2 i passed outside =>
    rw [List.drop_eq_nil_of_le (by rw [Array.length_toList]; exact Nat.le_of_not_lt outside),
      List.append_nil]

theorem toList_toUTF8 (text : String) :
    text.toUTF8.toList = text.toList.flatMap String.utf8EncodeChar := by
  have spelt : text.toUTF8 = text.toList.utf8Encode := String.utf8Encode_toList.symm
  rw [spelt, ByteArray.toList, toList_loop, List.utf8Encode, List.toList_data_toByteArray]
  rfl

theorem decodeUtf8_toUTF8 (text : String) : decodeUtf8 text.toUTF8.toList = .ok text := by
  rw [toList_toUTF8, decodeUtf8, decodeFrom_encode, List.reverse_nil, List.nil_append,
    String.ofList_toList]

/-- Bytes are decoded to the text whose bytes they are. -/
theorem decodeUtf8_eq_ok_iff {bytes : List UInt8} {text : String} :
    decodeUtf8 bytes = .ok text ↔ text.toUTF8.toList = bytes := by
  constructor
  · intro decoded
    obtain ⟨cs, rfl, rfl⟩ := encode_of_decodeFrom decoded
    rw [toList_toUTF8, List.reverse_nil, List.nil_append, String.toList_ofList]
  · rintro rfl
    exact decodeUtf8_toUTF8 text

end NineBit.Text

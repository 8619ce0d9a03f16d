import Mathlib.Data.String.Basic

/-!
# UTF-8

Strings are compared by their characters, and encoded strings by their bytes. The two orders agree,
because the encoding of a larger character is larger at the first byte where they differ, and no
encoding of a character is the beginning of another one (`encodeUtf8_lt_iff`).

A byte below 128 is a character by itself and part of no other, so it splits an encoded string where
the character splits the string (`splitOn_encodeUtf8`).
-/

namespace CryptPilot.Data

/-- The bytes of a string. -/
def encodeUtf8 (s : String) : List UInt8 := s.toUTF8.data.toList

theorem encodeUtf8_inj {s t : String} (h : encodeUtf8 s = encodeUtf8 t) : s = t := by
  have hdata : s.toUTF8.data = t.toUTF8.data := Array.toList_inj.mp h
  exact String.toByteArray_inj.mp (ByteArray.ext hdata)

/-- The string with the given bytes, if there is one. -/
def decodeUtf8 (bytes : List UInt8) : Option String := String.fromUTF8? ⟨bytes.toArray⟩

theorem decodeUtf8_eq_some_iff {bytes : List UInt8} {s : String} :
    decodeUtf8 bytes = some s ↔ encodeUtf8 s = bytes := by
  rw [decodeUtf8, String.fromUTF8?]
  split_ifs with hvalid
  · constructor
    · rintro ⟨⟩
      rfl
    · rintro rfl
      rfl
  · refine iff_of_false nofun ?_
    rintro rfl
    exact hvalid s.isValidUTF8

/-- Character by character. -/
theorem encodeUtf8_eq_flatMap (s : String) :
    encodeUtf8 s = s.toList.flatMap String.utf8EncodeChar := by
  show s.toByteArray.data.toList = _
  rw [← String.utf8Encode_toList, List.utf8Encode]
  simp

theorem utf8EncodeChar_ne_nil (c : Char) : String.utf8EncodeChar c ≠ [] := by
  intro hnil
  have hlen := String.length_utf8EncodeChar c
  rw [hnil] at hlen
  have := c.utf8Size_pos
  simp at hlen
  omega

/-- Whatever follows the characters, the smaller one comes first. -/
theorem utf8EncodeChar_append_lt {c d : Char} (h : c < d) (u v : List UInt8) :
    String.utf8EncodeChar c ++ u < String.utf8EncodeChar d ++ v := by
  have hlt : c.val.toNat < d.val.toNat := h
  have hd : d.val.toNat < 0x110000 := by
    have hvalid := d.valid
    simp only [UInt32.isValidChar, Nat.isValidChar] at hvalid
    omega
  unfold String.utf8EncodeChar
  generalize c.val.toNat = m at *
  generalize d.val.toNat = n at *
  have hdigit : ∀ k : Nat, k / 4096 = k / 64 / 64 ∧ k / 262144 = k / 64 / 64 / 64 := by
    intro k
    omega
  -- longer encodings begin with larger bytes; those of one length are numerals in base 64
  simp only [hdigit]
  split_ifs
  all_goals
    simp only [List.cons_append, List.nil_append, List.cons_lt_cons_iff, UInt8.lt_iff_toNat_lt,
      ← UInt8.toNat_inj, UInt8.toNat_ofNat']
    omega

theorem flatMap_utf8EncodeChar_lt {cs ds : List Char} (h : cs < ds) :
    cs.flatMap String.utf8EncodeChar < ds.flatMap String.utf8EncodeChar := by
  induction cs generalizing ds with
  | nil =>
    cases ds with
    | nil => exact absurd h (List.lt_irrefl _)
    | cons d ds =>
      rw [List.flatMap_nil, List.flatMap_cons]
      cases hd : String.utf8EncodeChar d with
      | nil => exact absurd hd (utf8EncodeChar_ne_nil d)
      | cons b bs => exact List.nil_lt_cons _ _
  | cons c cs ih =>
    cases ds with
    | nil => exact absurd h (List.not_lt_nil _)
    | cons d ds =>
      rw [List.flatMap_cons, List.flatMap_cons]
      rcases List.cons_lt_cons_iff.mp h with hlt | ⟨rfl, hrest⟩
      · exact utf8EncodeChar_append_lt hlt _ _
      · exact List.append_left_lt (ih hrest)

/-- **The order of strings is that of their bytes.** -/
theorem encodeUtf8_lt_iff {s t : String} : encodeUtf8 s < encodeUtf8 t ↔ s < t := by
  have hmono : ∀ {s t : String}, s < t → encodeUtf8 s < encodeUtf8 t := by
    intro s t h
    rw [encodeUtf8_eq_flatMap, encodeUtf8_eq_flatMap]
    exact flatMap_utf8EncodeChar_lt (String.lt_iff.mp h)
  refine ⟨fun h => ?_, hmono⟩
  rcases lt_trichotomy s t with hlt | rfl | hgt
  · exact hlt
  · exact absurd h (List.lt_irrefl _)
  · exact absurd h (List.lt_asymm (hmono hgt))

/-! ## Splitting -/

theorem mem_utf8EncodeChar_iff {b : UInt8} (hb : b.toNat < 128) {c : Char} :
    b ∈ String.utf8EncodeChar c ↔ c.val.toNat = b.toNat := by
  have hc : c.val.toNat < 0x110000 := by
    have hvalid := c.valid
    simp only [UInt32.isValidChar, Nat.isValidChar] at hvalid
    omega
  unfold String.utf8EncodeChar
  generalize c.val.toNat = m at *
  dsimp only
  split_ifs
  all_goals
    simp only [List.mem_cons, List.not_mem_nil, or_false, ← UInt8.toNat_inj, UInt8.toNat_ofNat']
    omega

theorem utf8EncodeChar_eq_singleton {b : UInt8} (hb : b.toNat < 128) {c : Char}
    (hc : c.val.toNat = b.toNat) : String.utf8EncodeChar c = [b] := by
  have hmem := (mem_utf8EncodeChar_iff hb).mpr hc
  have hone : c.utf8Size = 1 := by
    rw [Char.utf8Size_eq_one_iff, UInt32.le_iff_toNat_le, hc]
    exact Nat.le_of_lt_succ hb
  obtain ⟨b', hb'⟩ := List.length_eq_one_iff.mp ((String.length_utf8EncodeChar c).trans hone)
  rw [hb', List.mem_singleton] at hmem
  rw [hb', hmem]

theorem splitOn_append_of_not_mem {α : Type*} [BEq α] [LawfulBEq α] {a : α} {x : List α}
    (hx : a ∉ x) (y : List α) : (x ++ y).splitOn a = (y.splitOn a).modifyHead (x ++ ·) := by
  induction x with
  | nil =>
    rw [List.nil_append]
    cases y.splitOn a <;> rfl
  | cons b x ih =>
    have hne : (b == a) = false := by
      rw [beq_eq_false_iff_ne]
      rintro rfl
      exact hx List.mem_cons_self
    rw [List.cons_append, List.splitOn_cons_eq_if_modifyHead, hne,
      ih fun hmem => hx (List.mem_cons_of_mem _ hmem)]
    cases y.splitOn a <;> rfl

/-- **Pieces of a string.** They are encoded to the pieces of its encoding. -/
theorem splitOn_encodeUtf8 {b : UInt8} (hb : b.toNat < 128) {a : Char}
    (ha : a.val.toNat = b.toNat) (s : String) :
    (encodeUtf8 s).splitOn b =
      (s.toList.splitOn a).map fun piece => encodeUtf8 (String.ofList piece) := by
  simp only [encodeUtf8_eq_flatMap, String.toList_ofList]
  induction s.toList with
  | nil => rfl
  | cons c cs ih =>
    rw [List.flatMap_cons, List.splitOn_cons_eq_if_modifyHead]
    by_cases hc : c = a
    · subst hc
      rw [utf8EncodeChar_eq_singleton hb ha, beq_self_eq_true, if_pos rfl, List.singleton_append,
        List.splitOn_cons_eq_if_modifyHead, beq_self_eq_true, if_pos rfl, ih]
      rfl
    · have hnot : b ∉ String.utf8EncodeChar c := by
        rw [mem_utf8EncodeChar_iff hb, ← ha]
        exact fun heq => hc (Char.ext (UInt32.toNat_inj.mp heq))
      rw [splitOn_append_of_not_mem hnot, ih, beq_false_of_ne hc, if_neg Bool.false_ne_true]
      cases cs.splitOn a <;> rfl

end CryptPilot.Data

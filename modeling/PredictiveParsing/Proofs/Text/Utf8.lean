import PredictiveParsing.Text.Bytes
import PredictiveParsing.Text.Utf8

/-!
# Reading bytes back

The form of a text in bytes is decoded to the text, and bytes that are a beginning of it show its
first character.
-/

namespace PredictiveParsing.Text

variable {c : Char} {cs ds text : List Char} {bytes more : List UInt8} {b : UInt8}

@[simp] theorem utf8_nil : utf8 [] = [] := rfl

theorem utf8_cons (c : Char) (cs : List Char) : utf8 (c :: cs) = String.utf8EncodeChar c ++ utf8 cs :=
  List.flatMap_cons

theorem utf8_append (cs ds : List Char) : utf8 (cs ++ ds) = utf8 cs ++ utf8 ds :=
  List.flatMap_append

theorem utf8_singleton (c : Char) : utf8 [c] = String.utf8EncodeChar c := by
  rw [utf8_cons, utf8_nil, List.append_nil]

theorem length_utf8 (cs : List Char) : (utf8 cs).length = byteLength cs := by
  induction cs with
  | nil => rfl
  | cons c cs ih =>
    rw [utf8_cons, List.length_append, String.length_utf8EncodeChar, ih, byteLength_cons]

theorem firstChar?_append (h : firstChar? bytes = some c) (more : List UInt8) :
    firstChar? (bytes ++ more) = some c := by
  rw [firstChar?, List.toByteArray_append]
  exact ByteArray.utf8DecodeChar?_append_eq_some h _

theorem firstChar?_utf8 (c : Char) (cs : List Char) : firstChar? (utf8 (c :: cs)) = some c := by
  rw [utf8_cons, firstChar?, List.toByteArray_append]
  exact ByteArray.utf8DecodeChar?_utf8EncodeChar_append

theorem firstChar?_encode (c : Char) : firstChar? (String.utf8EncodeChar c) = some c := by
  rw [← utf8_singleton]
  exact firstChar?_utf8 c []

theorem utf8Size_mono {d : Char} (h : c ≤ d) : c.utf8Size ≤ d.utf8Size := by
  have hVal : c.val.toNat ≤ d.val.toNat := h
  simp only [Char.utf8Size, UInt32.le_iff_toNat_le]
  repeat' split
  all_goals omega

theorem toNat_ofNat {n : Nat} (h : n < 0x80) : (Char.ofNat n).toNat = n := by
  have hValid : n.isValidChar := .inl (by omega)
  rw [Char.ofNat, dif_pos hValid]
  rfl

theorem encode_ofNat (h : b < 0x80) : String.utf8EncodeChar (Char.ofNat b.toNat) = [b] := by
  have hVal : (Char.ofNat b.toNat).val.toNat = b.toNat := toNat_ofNat h
  have hLast : b.toNat ≤ 127 := Nat.le_of_lt_succ h
  have hSize : (Char.ofNat b.toNat).utf8Size = 1 := by
    rw [Char.utf8Size_eq_one_iff]
    exact UInt32.le_iff_toNat_le.mpr (Nat.le_trans (Nat.le_of_eq hVal) hLast)
  rw [String.utf8EncodeChar_eq_singleton hSize]
  congr 1
  apply UInt8.toNat_inj.mp
  rw [UInt32.toNat_toUInt8, hVal, Nat.mod_eq_of_lt b.toNat_lt]

theorem exists_cons_of_firstChar? (h : firstChar? bytes = some c) (hText : bytes <+: utf8 text) :
    ∃ cs, text = c :: cs := by
  obtain ⟨more, hMore⟩ := hText
  have hFirst : firstChar? (utf8 text) = some c := hMore ▸ firstChar?_append h more
  cases text with
  | nil => cases hFirst
  | cons d cs =>
    rw [firstChar?_utf8] at hFirst
    cases hFirst
    exact ⟨cs, rfl⟩

theorem decodeUpTo_utf8 {n : Nat} (h : cs.length ≤ n) : decodeUpTo n (utf8 cs) = cs := by
  induction cs generalizing n with
  | nil => cases n <;> rfl
  | cons c cs ih =>
    obtain ⟨n, rfl⟩ := Nat.exists_eq_add_one_of_ne_zero (Nat.ne_of_gt (Nat.lt_of_lt_of_le
      (Nat.succ_pos cs.length) h))
    have hDrop : (utf8 (c :: cs)).drop c.utf8Size = utf8 cs := by
      rw [utf8_cons, ← String.length_utf8EncodeChar, List.drop_left]
    rw [decodeUpTo, firstChar?_utf8]
    dsimp only
    rw [hDrop, ih (Nat.le_of_succ_le_succ h)]

@[simp] theorem decode_utf8 (cs : List Char) : decode (utf8 cs) = cs :=
  decodeUpTo_utf8 (length_utf8 cs ▸ length_le_byteLength cs)

theorem utf8_inj (h : utf8 cs = utf8 ds) : cs = ds := by
  rw [← decode_utf8 cs, h, decode_utf8]

end PredictiveParsing.Text

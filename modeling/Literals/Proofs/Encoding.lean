/-
# Encoded text is decoded again

The decoder walks the bytes of a character with the bits that it has so far and the ranges of the
bytes still due.  One lemma for each kind of byte says what it does with it; a character is then
decoded byte after byte, by its length, and **every text comes back from its bytes**
(`decode_encode`).  The ranges that differ from `80..BF` are met because no shorter form exists and
because a character is no surrogate and lies below U+110000.
-/
import Mathlib.Data.Nat.Basic
import Literals.Text.Utf8

namespace Literals.Text.Utf8

variable {b lead : UInt8} {rest : List UInt8} {o bits low high : Nat} {due : List (Nat × Nat)}
  {next : Nat × Nat} {taken : List UInt8} {v : Nat}

/-! ## 1. One byte -/

theorem decodeFrom_ascii (hb : b.toNat < 0x80) : decodeFrom o none (b :: rest) =
    (decodeFrom (o + 1) none rest).map (Char.ofNat b.toNat :: ·) := by
  rw [decodeFrom, if_pos hb]

theorem decodeFrom_lead (hb : ¬ b.toNat < 0x80) (hc : continuation? b = some (bits, due)) :
    decodeFrom o none (b :: rest) = decodeFrom (o + 1) (some ⟨bits, due, [b]⟩) rest := by
  rw [decodeFrom, if_neg hb, hc]

/-- A byte that others have to follow. -/
theorem decodeFrom_more (hb : low ≤ b.toNat ∧ b.toNat ≤ high) :
    decodeFrom o (some ⟨bits, (low, high) :: next :: due, taken⟩) (b :: rest) =
      decodeFrom (o + 1) (some ⟨bits * 64 + (b.toNat - 0x80), next :: due, b :: taken⟩) rest := by
  rw [decodeFrom]
  exact if_pos hb

/-- The last byte of a character. -/
theorem decodeFrom_last (hb : low ≤ b.toNat ∧ b.toNat ≤ high) :
    decodeFrom o (some ⟨bits, [(low, high)], taken⟩) (b :: rest) =
      (decodeFrom (o + 1) none rest).map (Char.ofNat (bits * 64 + (b.toNat - 0x80)) :: ·) := by
  rw [decodeFrom]
  exact if_pos hb

/-! ## 2. One character -/

theorem toNat_ofNat (hv : v < 256) : (UInt8.ofNat v).toNat = v := by
  rw [UInt8.toNat_ofNat', Nat.mod_eq_of_lt hv]

theorem toNat_val_ofNat (hv : v.isValidChar) : (Char.ofNat v).val.toNat = v := by
  rw [Char.ofNat, dif_pos hv]
  rfl

/-- The byte of a character below U+0080. -/
theorem encodeChar_one (hv : v < 0x80) :
    String.utf8EncodeChar (Char.ofNat v) = [UInt8.ofNat v] := by
  simp only [String.utf8EncodeChar, toNat_val_ofNat (Or.inl (by omega : v < 0xD800))]
  rw [if_pos (by omega)]

/-- The bytes of a character below U+0800. -/
theorem encodeChar_two (hv : 0x80 ≤ v) (hv' : v < 0x800) : String.utf8EncodeChar (Char.ofNat v) =
    [UInt8.ofNat (v / 64 + 0xC0), UInt8.ofNat (v % 64 + 0x80)] := by
  simp only [String.utf8EncodeChar, toNat_val_ofNat (Or.inl (by omega : v < 0xD800))]
  rw [if_neg (by omega), if_pos (by omega), Nat.mod_eq_of_lt (by omega : v / 64 < 32)]

/-- The bytes of a character below U+10000, which is no surrogate. -/
theorem encodeChar_three (hv : 0x800 ≤ v) (hv' : v < 0x10000)
    (hsurrogate : v < 0xD800 ∨ 0xDFFF < v) : String.utf8EncodeChar (Char.ofNat v) =
      [UInt8.ofNat (v / 4096 + 0xE0), UInt8.ofNat (v / 64 % 64 + 0x80),
        UInt8.ofNat (v % 64 + 0x80)] := by
  have hvalid : v.isValidChar := hsurrogate.imp_right fun h => ⟨h, by omega⟩
  simp only [String.utf8EncodeChar, toNat_val_ofNat hvalid]
  rw [if_neg (by omega), if_neg (by omega), if_pos (by omega),
    Nat.mod_eq_of_lt (by omega : v / 4096 < 16)]

/-- The bytes of a character from U+10000 on. -/
theorem encodeChar_four (hv : 0x10000 ≤ v) (hv' : v < 0x110000) :
    String.utf8EncodeChar (Char.ofNat v) =
      [UInt8.ofNat (v / 262144 + 0xF0), UInt8.ofNat (v / 4096 % 64 + 0x80),
        UInt8.ofNat (v / 64 % 64 + 0x80), UInt8.ofNat (v % 64 + 0x80)] := by
  have hvalid : v.isValidChar := Or.inr ⟨by omega, hv'⟩
  simp only [String.utf8EncodeChar, toNat_val_ofNat hvalid]
  rw [if_neg (by omega), if_neg (by omega), if_neg (by omega),
    Nat.mod_eq_of_lt (by omega : v / 262144 < 8)]

/-- A character of two bytes. -/
theorem decodeFrom_two (hv : 0x80 ≤ v) (hv' : v < 0x800) :
    decodeFrom o none (UInt8.ofNat (v / 64 + 0xC0) :: UInt8.ofNat (v % 64 + 0x80) :: rest) =
      (decodeFrom (o + 2) none rest).map (Char.ofNat v :: ·) := by
  have hlead : (UInt8.ofNat (v / 64 + 0xC0)).toNat = v / 64 + 0xC0 := toNat_ofNat (by omega)
  have hlast : (UInt8.ofNat (v % 64 + 0x80)).toNat = v % 64 + 0x80 := toNat_ofNat (by omega)
  have hdue : continuation? (UInt8.ofNat (v / 64 + 0xC0)) = some (v / 64, [(0x80, 0xBF)]) := by
    unfold continuation?
    simp only [hlead]
    rw [if_neg (by omega), if_pos (by omega), Nat.add_sub_cancel]
  have hbits : v / 64 * 64 + ((UInt8.ofNat (v % 64 + 0x80)).toNat - 0x80) = v := by omega
  rw [decodeFrom_lead (by omega) hdue, decodeFrom_last (by omega), hbits]

/-- A character of three bytes. -/
theorem decodeFrom_three (hv : 0x800 ≤ v) (hv' : v < 0x10000)
    (hsurrogate : v < 0xD800 ∨ 0xDFFF < v) :
    decodeFrom o none (UInt8.ofNat (v / 4096 + 0xE0) :: UInt8.ofNat (v / 64 % 64 + 0x80) ::
      UInt8.ofNat (v % 64 + 0x80) :: rest) =
        (decodeFrom (o + 3) none rest).map (Char.ofNat v :: ·) := by
  have hlead : (UInt8.ofNat (v / 4096 + 0xE0)).toNat = v / 4096 + 0xE0 := toNat_ofNat (by omega)
  have hmore : (UInt8.ofNat (v / 64 % 64 + 0x80)).toNat = v / 64 % 64 + 0x80 :=
    toNat_ofNat (by omega)
  have hlast : (UInt8.ofNat (v % 64 + 0x80)).toNat = v % 64 + 0x80 := toNat_ofNat (by omega)
  have hdue : continuation? (UInt8.ofNat (v / 4096 + 0xE0)) = some (v / 4096,
      [(if v / 4096 + 0xE0 = 0xE0 then 0xA0 else 0x80,
        if v / 4096 + 0xE0 = 0xED then 0x9F else 0xBF), (0x80, 0xBF)]) := by
    unfold continuation?
    simp only [hlead]
    rw [if_neg (by omega), if_neg (by omega), if_pos (by omega), Nat.add_sub_cancel]
  have hrange : (if v / 4096 + 0xE0 = 0xE0 then 0xA0 else 0x80) ≤ v / 64 % 64 + 0x80 ∧
      v / 64 % 64 + 0x80 ≤ if v / 4096 + 0xE0 = 0xED then 0x9F else 0xBF := by
    split <;> split <;> omega
  have hbits : (v / 4096 * 64 + ((UInt8.ofNat (v / 64 % 64 + 0x80)).toNat - 0x80)) * 64 +
      ((UInt8.ofNat (v % 64 + 0x80)).toNat - 0x80) = v := by omega
  rw [decodeFrom_lead (by omega) hdue, decodeFrom_more (by rwa [hmore]),
    decodeFrom_last (by omega), hbits]

/-- A character of four bytes. -/
theorem decodeFrom_four (hv : 0x10000 ≤ v) (hv' : v < 0x110000) :
    decodeFrom o none (UInt8.ofNat (v / 262144 + 0xF0) :: UInt8.ofNat (v / 4096 % 64 + 0x80) ::
      UInt8.ofNat (v / 64 % 64 + 0x80) :: UInt8.ofNat (v % 64 + 0x80) :: rest) =
        (decodeFrom (o + 4) none rest).map (Char.ofNat v :: ·) := by
  have hlead : (UInt8.ofNat (v / 262144 + 0xF0)).toNat = v / 262144 + 0xF0 :=
    toNat_ofNat (by omega)
  have hfirst : (UInt8.ofNat (v / 4096 % 64 + 0x80)).toNat = v / 4096 % 64 + 0x80 :=
    toNat_ofNat (by omega)
  have hmore : (UInt8.ofNat (v / 64 % 64 + 0x80)).toNat = v / 64 % 64 + 0x80 :=
    toNat_ofNat (by omega)
  have hlast : (UInt8.ofNat (v % 64 + 0x80)).toNat = v % 64 + 0x80 := toNat_ofNat (by omega)
  have hdue : continuation? (UInt8.ofNat (v / 262144 + 0xF0)) = some (v / 262144,
      [(if v / 262144 + 0xF0 = 0xF0 then 0x90 else 0x80,
        if v / 262144 + 0xF0 = 0xF4 then 0x8F else 0xBF), (0x80, 0xBF), (0x80, 0xBF)]) := by
    unfold continuation?
    simp only [hlead]
    rw [if_neg (by omega), if_neg (by omega), if_neg (by omega), if_pos (by omega),
      Nat.add_sub_cancel]
  have hrange : (if v / 262144 + 0xF0 = 0xF0 then 0x90 else 0x80) ≤ v / 4096 % 64 + 0x80 ∧
      v / 4096 % 64 + 0x80 ≤ if v / 262144 + 0xF0 = 0xF4 then 0x8F else 0xBF := by
    split <;> split <;> omega
  have hbits : ((v / 262144 * 64 + ((UInt8.ofNat (v / 4096 % 64 + 0x80)).toNat - 0x80)) * 64 +
      ((UInt8.ofNat (v / 64 % 64 + 0x80)).toNat - 0x80)) * 64 +
        ((UInt8.ofNat (v % 64 + 0x80)).toNat - 0x80) = v := by omega
  rw [decodeFrom_lead (by omega) hdue, decodeFrom_more (by rwa [hfirst]),
    decodeFrom_more (by omega), decodeFrom_last (by omega), hbits]

/-- **The bytes of a character are decoded as the character.** -/
theorem decodeFrom_encodeChar (c : Char) (o : Nat) (rest : List UInt8) :
    decodeFrom o none (String.utf8EncodeChar c ++ rest) =
      (decodeFrom (o + (String.utf8EncodeChar c).length) none rest).map (c :: ·) := by
  obtain ⟨v, hvalid, rfl⟩ : ∃ v : Nat, v.isValidChar ∧ c = Char.ofNat v :=
    ⟨c.toNat, c.valid, (Char.ofNat_toNat c).symm⟩
  by_cases hone : v < 0x80
  · have hb : (UInt8.ofNat v).toNat = v := toNat_ofNat (by omega)
    rw [encodeChar_one hone, List.singleton_append, decodeFrom_ascii (by omega), hb]
    rfl
  by_cases htwo : v < 0x800
  · rw [encodeChar_two (by omega) htwo]
    exact decodeFrom_two (by omega) htwo
  by_cases hthree : v < 0x10000
  · rw [encodeChar_three (by omega) hthree (hvalid.imp_right And.left)]
    exact decodeFrom_three (by omega) hthree (hvalid.imp_right And.left)
  · have hfour : v < 0x110000 := by
      unfold Nat.isValidChar at hvalid
      omega
    rw [encodeChar_four (by omega) hfour]
    exact decodeFrom_four (by omega) hfour

/-! ## 3. Texts -/

theorem decodeFrom_encode (s : List Char) (o : Nat) : decodeFrom o none (encode s) = .ok s := by
  induction s generalizing o with
  | nil => rfl
  | cons c s ih =>
    rw [encode, List.flatMap_cons, decodeFrom_encodeChar]
    change (decodeFrom _ none (encode s)).map (c :: ·) = .ok (c :: s)
    rw [ih]
    rfl

/-- **A text is decoded from the bytes that encode it.** -/
theorem decode_encode (s : List Char) : decode (encode s) = .ok s :=
  decodeFrom_encode s 0

end Literals.Text.Utf8

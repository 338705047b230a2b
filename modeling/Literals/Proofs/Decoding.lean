/-
# Only encoded text is decoded

The converse of `Encoding`.  A first byte fixes how many bytes follow it and in which ranges
(`continuation?_cases`), and a decoder that gets through finds them there (`bytes_of_more`,
`bytes_of_last`); the bounds of the ranges are those of the numbers with so many bytes, less the
surrogates, so the bytes taken are the bytes of the character that they make up.  Hence **bytes are
decoded exactly when they encode a text, and then as that text** (`decode_eq_ok_iff`), and reading
bytes is reading the text that they encode.
-/
import Literals.Proofs.Encoding
import Literals.Reader.Bytes

namespace Literals

namespace Text.Utf8

variable {b lead : UInt8} {bytes rest : List UInt8} {o bits low high : Nat}
  {due : List (Nat × Nat)} {next : Nat × Nat} {taken : List UInt8} {s : List Char} {v : Nat}

/-! ## 1. What a decoder that gets through has found -/

/-- What a first byte says about those that follow. -/
theorem continuation?_cases (h : continuation? lead = some (bits, due)) :
    (0xC2 ≤ lead.toNat ∧ lead.toNat < 0xE0 ∧ bits = lead.toNat - 0xC0 ∧ due = [(0x80, 0xBF)]) ∨
    (0xE0 ≤ lead.toNat ∧ lead.toNat < 0xF0 ∧ bits = lead.toNat - 0xE0 ∧
      due = [(if lead.toNat = 0xE0 then 0xA0 else 0x80,
        if lead.toNat = 0xED then 0x9F else 0xBF), (0x80, 0xBF)]) ∨
    (0xF0 ≤ lead.toNat ∧ lead.toNat < 0xF5 ∧ bits = lead.toNat - 0xF0 ∧
      due = [(if lead.toNat = 0xF0 then 0x90 else 0x80,
        if lead.toNat = 0xF4 then 0x8F else 0xBF), (0x80, 0xBF), (0x80, 0xBF)]) := by
  have hinj : ∀ {m n : Nat} {xs ys : List (Nat × Nat)}, some (m, xs) = some (n, ys) →
      n = m ∧ ys = xs := fun h =>
    ⟨(Prod.mk.inj (Option.some.inj h)).1.symm, (Prod.mk.inj (Option.some.inj h)).2.symm⟩
  simp only [continuation?] at h
  split at h
  · cases h
  · split at h
    · exact Or.inl ⟨by omega, by omega, hinj h⟩
    · split at h
      · exact Or.inr (Or.inl ⟨by omega, by omega, hinj h⟩)
      · split at h
        · exact Or.inr (Or.inr ⟨by omega, by omega, hinj h⟩)
        · cases h

theorem eq_ok_of_map {f : List Char → List Char} {r : Except Fault (List Char)}
    (h : r.map f = .ok s) : ∃ t, r = .ok t ∧ s = f t := by
  cases r with
  | error _ => cases h
  | ok t => exact ⟨t, rfl, (Except.ok.inj h).symm⟩

/-- A byte that others have to follow was there, and in its range. -/
theorem bytes_of_more
    (h : decodeFrom o (some ⟨bits, (low, high) :: next :: due, taken⟩) bytes = .ok s) :
    ∃ b rest, bytes = b :: rest ∧ (low ≤ b.toNat ∧ b.toNat ≤ high) ∧
      decodeFrom (o + 1) (some ⟨bits * 64 + (b.toNat - 0x80), next :: due, b :: taken⟩) rest =
        .ok s := by
  cases bytes with
  | nil => cases h
  | cons b rest =>
    by_cases hb : low ≤ b.toNat ∧ b.toNat ≤ high
    · rw [decodeFrom_more hb] at h
      exact ⟨b, rest, rfl, hb, h⟩
    · rw [decodeFrom] at h
      cases (if_neg hb).symm.trans h

/-- The last byte of a character was there, and in its range. -/
theorem bytes_of_last (h : decodeFrom o (some ⟨bits, [(low, high)], taken⟩) bytes = .ok s) :
    ∃ b rest t, bytes = b :: rest ∧ (low ≤ b.toNat ∧ b.toNat ≤ high) ∧
      s = Char.ofNat (bits * 64 + (b.toNat - 0x80)) :: t ∧
      decodeFrom (o + 1) none rest = .ok t := by
  cases bytes with
  | nil => cases h
  | cons b rest =>
    by_cases hb : low ≤ b.toNat ∧ b.toNat ≤ high
    · rw [decodeFrom_last hb] at h
      obtain ⟨t, ht, rfl⟩ := eq_ok_of_map h
      exact ⟨b, rest, t, rfl, hb, rfl, ht⟩
    · rw [decodeFrom] at h
      cases (if_neg hb).symm.trans h

/-! ## 2. One character -/

/-- The bytes start with those of a character, and what follows is decoded as the rest. -/
def Continues (bytes : List UInt8) (s : List Char) : Prop :=
  ∃ c rest t o, bytes = String.utf8EncodeChar c ++ rest ∧ s = c :: t ∧
    decodeFrom o none rest = .ok t

theorem continues_of_bytes {c : Char} {t : List Char}
    (hc : String.utf8EncodeChar c ++ rest = bytes) (ht : decodeFrom o none rest = .ok t) :
    Continues bytes (c :: t) :=
  ⟨c, rest, t, o, hc.symm, rfl, ht⟩

theorem ofNat_eq (h : v = b.toNat) : UInt8.ofNat v = b := by
  rw [h, UInt8.ofNat_toNat]

theorem continues_two (hlead : 0xC2 ≤ lead.toNat ∧ lead.toNat < 0xE0)
    (h : decodeFrom o (some ⟨lead.toNat - 0xC0, [(0x80, 0xBF)], taken⟩) bytes = .ok s) :
    Continues (lead :: bytes) s := by
  obtain ⟨b, rest, t, rfl, hb, rfl, ht⟩ := bytes_of_last h
  refine continues_of_bytes ?_ ht
  rw [encodeChar_two (by omega) (by omega), ofNat_eq (b := lead) (by omega),
    ofNat_eq (b := b) (by omega)]
  rfl

theorem continues_three (hlead : 0xE0 ≤ lead.toNat ∧ lead.toNat < 0xF0)
    (h : decodeFrom o (some ⟨lead.toNat - 0xE0, [(if lead.toNat = 0xE0 then 0xA0 else 0x80,
      if lead.toNat = 0xED then 0x9F else 0xBF), (0x80, 0xBF)], taken⟩) bytes = .ok s) :
    Continues (lead :: bytes) s := by
  obtain ⟨b, bytes, rfl, hb, h⟩ := bytes_of_more h
  obtain ⟨b', rest, t, rfl, hb', rfl, ht⟩ := bytes_of_last h
  refine continues_of_bytes ?_ ht
  have hrange : 0x80 ≤ b.toNat ∧ b.toNat ≤ 0xBF ∧ (lead.toNat = 0xE0 → 0xA0 ≤ b.toNat) ∧
      (lead.toNat = 0xED → b.toNat ≤ 0x9F) := by
    split at hb <;> split at hb <;> omega
  rw [encodeChar_three (by omega) (by omega) (by omega), ofNat_eq (b := lead) (by omega),
    ofNat_eq (b := b) (by omega), ofNat_eq (b := b') (by omega)]
  rfl

theorem continues_four (hlead : 0xF0 ≤ lead.toNat ∧ lead.toNat < 0xF5)
    (h : decodeFrom o (some ⟨lead.toNat - 0xF0, [(if lead.toNat = 0xF0 then 0x90 else 0x80,
      if lead.toNat = 0xF4 then 0x8F else 0xBF), (0x80, 0xBF), (0x80, 0xBF)], taken⟩) bytes =
        .ok s) :
    Continues (lead :: bytes) s := by
  obtain ⟨b, bytes, rfl, hb, h⟩ := bytes_of_more h
  obtain ⟨b', bytes, rfl, hb', h⟩ := bytes_of_more h
  obtain ⟨b'', rest, t, rfl, hb'', rfl, ht⟩ := bytes_of_last h
  refine continues_of_bytes ?_ ht
  have hrange : 0x80 ≤ b.toNat ∧ b.toNat ≤ 0xBF ∧ (lead.toNat = 0xF0 → 0x90 ≤ b.toNat) ∧
      (lead.toNat = 0xF4 → b.toNat ≤ 0x8F) := by
    split at hb <;> split at hb <;> omega
  rw [encodeChar_four (by omega) (by omega), ofNat_eq (b := lead) (by omega),
    ofNat_eq (b := b) (by omega), ofNat_eq (b := b') (by omega), ofNat_eq (b := b'') (by omega)]
  rfl

/-- **What is decoded starts with the bytes of a character.** -/
theorem continues_of_decodeFrom (h : decodeFrom o none (b :: rest) = .ok s) :
    Continues (b :: rest) s := by
  by_cases hascii : b.toNat < 0x80
  · rw [decodeFrom_ascii hascii] at h
    obtain ⟨t, ht, rfl⟩ := eq_ok_of_map h
    refine continues_of_bytes ?_ ht
    rw [encodeChar_one hascii, ofNat_eq rfl]
    rfl
  · cases hc : continuation? b with
    | none =>
      rw [decodeFrom, if_neg hascii, hc] at h
      cases h
    | some p =>
      obtain ⟨bits, due⟩ := p
      rw [decodeFrom_lead hascii hc] at h
      rcases continuation?_cases hc with ⟨hlow, hhigh, hbits, hdue⟩ |
        ⟨hlow, hhigh, hbits, hdue⟩ | ⟨hlow, hhigh, hbits, hdue⟩ <;> rw [hbits, hdue] at h
      · exact continues_two ⟨hlow, hhigh⟩ h
      · exact continues_three ⟨hlow, hhigh⟩ h
      · exact continues_four ⟨hlow, hhigh⟩ h

/-! ## 3. Texts -/

theorem encode_of_decodeFrom (h : decodeFrom o none bytes = .ok s) : bytes = encode s := by
  -- A character may have several bytes, so the induction is over the text.
  induction s generalizing o bytes with
  | nil =>
    cases bytes with
    | nil => rfl
    | cons b rest =>
      obtain ⟨_, _, _, _, _, hs, _⟩ := continues_of_decodeFrom h
      cases hs
  | cons c s ih =>
    cases bytes with
    | nil => cases h
    | cons b rest =>
      obtain ⟨d, rest', t, o', hbytes, hs, ht⟩ := continues_of_decodeFrom h
      obtain ⟨rfl, rfl⟩ := List.cons.inj hs
      rw [hbytes, ih ht]
      rfl

/-- **Bytes are decoded exactly when they encode a text, and then as that text.** -/
theorem decode_eq_ok_iff : decode bytes = .ok s ↔ bytes = encode s :=
  ⟨encode_of_decodeFrom, fun h => h ▸ decode_encode s⟩

/-- The bytes of a text are those of which the text is made. -/
theorem encode_toList (s : String) : encode s.toList = s.toUTF8.data.toList := by
  rw [String.toUTF8_eq_toByteArray, ← String.utf8Encode_toList, List.utf8Encode,
    List.data_toByteArray, encode]

end Text.Utf8

namespace Reader

open Text

variable {bytes : List UInt8} {s : String}

theorem decodeText_toUTF8 (s : String) : decodeText s.toUTF8.data.toList = .ok s := by
  rw [decodeText, ← Utf8.encode_toList, Utf8.decode_encode]
  exact congrArg Except.ok String.ofList_toList

/-- Bytes that encode no text are refused. -/
theorem exists_undecodable (h : ∀ s : String, bytes ≠ s.toUTF8.data.toList) :
    ∃ f, decodeText bytes = .error (.undecodable f) := by
  cases hd : Utf8.decode bytes with
  | error f => exact ⟨f, by rw [decodeText, hd]⟩
  | ok t =>
    refine absurd ?_ (h (String.ofList t))
    rw [← Utf8.encode_toList, String.toList_ofList]
    exact Utf8.decode_eq_ok_iff.mp hd

/-- A tree that is read from bytes is read from the text that they encode. -/
theorem exists_read_of_readBytes {limit : Option Int} {t : Tree}
    (h : readBytes bytes limit = .ok t) : ∃ text, read text limit = .ok t := by
  unfold readBytes at h
  split at h
  next => cases h
  next text _ =>
    split at h
    next u hu =>
      cases h
      exact ⟨text, hu⟩
    next => cases h

/-- The trees that are returned for some text, or for some bytes, under some limit. -/
def Returned (t : Tree) : Prop :=
  ∃ limit, (∃ text, read text limit = .ok t) ∨ ∃ bytes, readBytes bytes limit = .ok t

theorem Returned.exists_read {t : Tree} (h : Returned t) :
    ∃ text limit, read text limit = .ok t := by
  obtain ⟨limit, ⟨text, hread⟩ | ⟨bytes, hread⟩⟩ := h
  · exact ⟨text, limit, hread⟩
  · obtain ⟨text, hread⟩ := exists_read_of_readBytes hread
    exact ⟨text, limit, hread⟩

/-- **Reading bytes is reading the text that they encode**, and so is evaluating them: the tree, the
value and the fault with its place are those of the text.  Bytes that encode no text are refused as
such, and are not read at all. -/
theorem readBytes_agrees (bytes : List UInt8) (limit : Option Int) :
    (∀ s : String, bytes = s.toUTF8.data.toList →
      readBytes bytes limit = (read s limit).mapError .fault ∧
        evalBytes bytes limit = eval s limit) ∧
    ((∀ s : String, bytes ≠ s.toUTF8.data.toList) →
      ∃ f, readBytes bytes limit = .error (.undecodable f) ∧
        evalBytes bytes limit = .error (.input (.undecodable f))) := by
  constructor
  · rintro s rfl
    rw [readBytes, evalBytes, decodeText_toUTF8]
    dsimp only
    cases read s limit <;> exact ⟨rfl, rfl⟩
  · intro h
    obtain ⟨f, hf⟩ := exists_undecodable h
    exact ⟨f, by rw [readBytes, hf], by rw [evalBytes, hf]⟩

/-- A surrogate among the bytes is refused wherever it stands, here behind a text that would be
read to its end. -/
example : decodeText [0x5B, 0x5D, 0xED, 0xA0, 0x80] =
    .error (.undecodable ⟨.badContinuation, 2, [0xED]⟩) := by
  decide

end Reader

end Literals

/-
  Decoding undoes encoding.

  * `decodeFrom_owed` and `decodeFrom_last`: what a byte does to a character that has
    begun, if it lies in the range of its next byte;
  * `Begun.of?_two`, `Begun.of?_three`, `Begun.of?_four`: what the first byte of a
    character begins, and that the second one lies in its range;
  * `decodeLossy_encode`: a text is what its bytes decode to.
-/
import GoDecls.Text.Decode

namespace GoDecls.Text

variable {v : Nat} {g : Begun} {b : UInt8} {bs : List UInt8}

/-! ## Single bytes -/

/-- A byte that goes on with a character: the lowest six bits of `v`. -/
theorem toNat_tail (v : Nat) : (UInt8.ofNat (v % 0x40 + 0x80)).toNat = v % 64 + 0x80 := by
  rw [UInt8.toNat_ofNat_of_lt' (by show _ < 256; omega)]

theorem decodeFrom_owed (hlow : g.low ≤ b.toNat) (hhigh : b.toNat ≤ g.high) (howed : 1 < g.owed) :
    decodeFrom (some g) (b :: bs) =
      decodeFrom (some ⟨g.bits * 64 + (b.toNat - 0x80), g.owed - 1, 0x80, 0xBF⟩) bs := by
  have hmore : ¬ g.owed ≤ 1 := by omega
  simp [decodeFrom, decodeNext, hlow, hhigh, hmore]

theorem decodeFrom_last (hlow : g.low ≤ b.toNat) (hhigh : b.toNat ≤ g.high) (howed : g.owed = 1) :
    decodeFrom (some g) (b :: bs) =
      Char.ofNat (g.bits * 64 + (b.toNat - 0x80)) :: decodeFrom none bs := by
  simp [decodeFrom, decodeNext, hlow, hhigh, howed]

theorem decodeFrom_begun (hb : 0x80 ≤ b.toNat) (hg : Begun.of? b.toNat = some g) :
    decodeFrom none (b :: bs) = decodeFrom (some g) bs := by
  simp [decodeFrom, decodeNext, decodeFirst, Nat.not_lt.2 hb, hg]

/-! ## First bytes -/

theorem Begun.of?_two (hlow : 0x7F < v) (hhigh : v ≤ 0x7FF) :
    Begun.of? (v / 64 % 0x20 + 0xC0) = some ⟨v / 64, 1, 0x80, 0xBF⟩ := by
  have hfirst : 0xC2 ≤ v / 64 % 0x20 + 0xC0 ∧ v / 64 % 0x20 + 0xC0 ≤ 0xDF := by omega
  have hbits : v / 64 % 0x20 + 0xC0 - 0xC0 = v / 64 := by omega
  rw [Begun.of?, if_pos hfirst, hbits]

/-- Behind `0xE0` no overlong form may follow, behind `0xED` no surrogate. -/
theorem Begun.of?_three (hlow : 0x7FF < v) (hhigh : v ≤ 0xFFFF) (hv : v < 0xD800 ∨ 0xDFFF < v) :
    ∃ low high, Begun.of? (v / 4096 % 0x10 + 0xE0) = some ⟨v / 4096, 2, low, high⟩ ∧
      low ≤ v / 64 % 64 + 0x80 ∧ v / 64 % 64 + 0x80 ≤ high := by
  have hdiv : v / 4096 % 0x10 = v / 4096 := by omega
  rw [hdiv, Begun.of?, if_neg (by omega)]
  split
  · next h => exact ⟨0xA0, 0xBF, by simp; omega, by omega, by omega⟩
  split
  · next h => exact ⟨0x80, 0x9F, by simp; omega, by omega, by omega⟩
  rw [if_pos (by omega), Nat.add_sub_cancel]
  exact ⟨0x80, 0xBF, rfl, by omega, by omega⟩

/-- Behind `0xF0` no overlong form may follow, behind `0xF4` nothing beyond the last
    code point. -/
theorem Begun.of?_four (hlow : 0xFFFF < v) (hhigh : v ≤ 0x10FFFF) :
    ∃ low high, Begun.of? (v / 262144 % 0x08 + 0xF0) = some ⟨v / 262144, 3, low, high⟩ ∧
      low ≤ v / 4096 % 64 + 0x80 ∧ v / 4096 % 64 + 0x80 ≤ high := by
  have hdiv : v / 262144 % 0x08 = v / 262144 := by omega
  rw [hdiv, Begun.of?, if_neg (by omega), if_neg (by omega), if_neg (by omega), if_neg (by omega)]
  split
  · next h => exact ⟨0x90, 0xBF, by simp; omega, by omega, by omega⟩
  split
  · rw [Nat.add_sub_cancel]
    exact ⟨0x80, 0xBF, rfl, by omega, by omega⟩
  rw [if_pos (by omega)]
  exact ⟨0x80, 0x8F, by simp; omega, by omega, by omega⟩

/-! ## Characters -/

/-- The last byte of a character. -/
theorem decodeFrom_tail (bits v : Nat) :
    decodeFrom (some ⟨bits, 1, 0x80, 0xBF⟩) (UInt8.ofNat (v % 0x40 + 0x80) :: bs) =
      Char.ofNat (bits * 64 + v % 64) :: decodeFrom none bs := by
  have hb := toNat_tail v
  rw [decodeFrom_last (by simp only; omega) (by simp only; omega) rfl, hb, Nat.add_sub_cancel]

/-- A byte of a character before the last. -/
theorem decodeFrom_inner {bits owed low high : Nat} (hlow : low ≤ v % 64 + 0x80)
    (hhigh : v % 64 + 0x80 ≤ high) :
    decodeFrom (some ⟨bits, owed + 2, low, high⟩) (UInt8.ofNat (v % 0x40 + 0x80) :: bs) =
      decodeFrom (some ⟨bits * 64 + v % 64, owed + 1, 0x80, 0xBF⟩) bs := by
  have hb := toNat_tail v
  rw [decodeFrom_owed (by simp only; omega) (by simp only; omega) (by simp only; omega), hb,
    Nat.add_sub_cancel]
  rfl

theorem decodeFrom_utf8EncodeChar (c : Char) (bs : List UInt8) :
    decodeFrom none (String.utf8EncodeChar c ++ bs) = c :: decodeFrom none bs := by
  have hvalid : c.val.toNat < 0xD800 ∨ 0xDFFF < c.val.toNat ∧ c.val.toNat ≤ 0x10FFFF := by
    have := c.valid
    simp only [UInt32.isValidChar, Nat.isValidChar] at this
    omega
  have hchar : Char.ofNat c.val.toNat = c := Char.ofNat_toNat c
  simp only [String.utf8EncodeChar]
  generalize c.val.toNat = v at hvalid hchar
  -- One case for each number of bytes.
  split
  · next h =>
    have hb : (UInt8.ofNat v).toNat = v := UInt8.toNat_ofNat_of_lt' (by show _ < 256; omega)
    have hlt : v < 0x80 := by omega
    simp [decodeFrom, decodeNext, decodeFirst, hb, hlt, hchar]
  split
  · next h =>
    have hb : (UInt8.ofNat (v / 64 % 0x20 + 0xC0)).toNat = v / 64 % 0x20 + 0xC0 :=
      UInt8.toNat_ofNat_of_lt' (by show _ < 256; omega)
    have hv : v / 64 * 64 + v % 64 = v := by omega
    rw [List.cons_append, List.cons_append, List.nil_append,
      decodeFrom_begun (by omega) (hb ▸ Begun.of?_two (by omega) h), decodeFrom_tail, hv, hchar]
  split
  · next h =>
    have hb : (UInt8.ofNat (v / 4096 % 0x10 + 0xE0)).toNat = v / 4096 % 0x10 + 0xE0 :=
      UInt8.toNat_ofNat_of_lt' (by show _ < 256; omega)
    have hv : (v / 4096 * 64 + v / 64 % 64) * 64 + v % 64 = v := by omega
    obtain ⟨low, high, hbegun, hlow, hhigh⟩ := Begun.of?_three (v := v) (by omega) h (by omega)
    rw [List.cons_append, List.cons_append, List.cons_append, List.nil_append,
      decodeFrom_begun (by omega) (hb ▸ hbegun), decodeFrom_inner hlow hhigh, decodeFrom_tail, hv,
      hchar]
  · have hb : (UInt8.ofNat (v / 262144 % 0x08 + 0xF0)).toNat = v / 262144 % 0x08 + 0xF0 :=
      UInt8.toNat_ofNat_of_lt' (by show _ < 256; omega)
    have hv : ((v / 262144 * 64 + v / 4096 % 64) * 64 + v / 64 % 64) * 64 + v % 64 = v := by omega
    obtain ⟨low, high, hbegun, hlow, hhigh⟩ := Begun.of?_four (v := v) (by omega) (by omega)
    rw [List.cons_append, List.cons_append, List.cons_append, List.cons_append, List.nil_append,
      decodeFrom_begun (by omega) (hb ▸ hbegun), decodeFrom_inner hlow hhigh,
      decodeFrom_inner (by omega) (by omega), decodeFrom_tail, hv, hchar]

/-- **Decoding undoes encoding.** -/
theorem decodeLossy_encode (cs : List Char) : decodeLossy (encode cs) = cs := by
  induction cs with
  | nil => rfl
  | cons c cs ih =>
    rw [decodeLossy, encode, List.flatMap_cons, decodeFrom_utf8EncodeChar]
    exact congrArg (c :: ·) ih

end GoDecls.Text

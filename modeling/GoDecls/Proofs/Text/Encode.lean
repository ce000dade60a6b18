/-
  The bytes of a text, character by character.

  * `utf8EncodeChar_cases`: an ASCII character is one byte, its number; any other has
    only bytes from 128 on;
  * `beq_of_mem`: so a byte of a character is that of an ASCII character only if the
    characters are the same;
  * `Reads p P`: a test of bytes answers as a test of characters does, and
    `length_takeWhile_encode`: then it goes through as many bytes as the characters have
    that the other goes through.
-/
import GoDecls.Text.Bytes
import GoDecls.Text.Decode

namespace GoDecls.Text

variable {c d : Char} {cs : List Char} {b : UInt8}

/-! ## Characters -/

theorem utf8EncodeChar_cases (c : Char) :
    c.toNat < 128 ∧ String.utf8EncodeChar c = [c.toUInt8] ∨
      128 ≤ c.toNat ∧ ∀ b ∈ String.utf8EncodeChar c, 128 ≤ b.toNat := by
  have hval : c.val.toNat = c.toNat := rfl
  by_cases hc : c.toNat < 128
  · refine .inl ⟨hc, ?_⟩
    simp only [String.utf8EncodeChar, hval]
    rw [if_pos (by omega)]
    rfl
  · have hhigh : ∀ v : Nat, 128 ≤ v → v < 256 → 128 ≤ (UInt8.ofNat v).toNat := fun v hv hlt => by
      rw [UInt8.toNat_ofNat_of_lt' hlt]
      exact hv
    refine .inr ⟨by omega, fun b hb => ?_⟩
    -- a first byte is from 192 on and any other from 128 on
    obtain ⟨v, hv, hlt, rfl⟩ : ∃ v, 128 ≤ v ∧ v < 256 ∧ UInt8.ofNat v = b := by
      simp only [String.utf8EncodeChar, hval] at hb
      rw [if_neg (by omega)] at hb
      split at hb
      · simp only [List.mem_cons, List.not_mem_nil, or_false] at hb
        rcases hb with rfl | rfl <;> exact ⟨_, by omega, by omega, rfl⟩
      split at hb
      · simp only [List.mem_cons, List.not_mem_nil, or_false] at hb
        rcases hb with rfl | rfl | rfl <;> exact ⟨_, by omega, by omega, rfl⟩
      · simp only [List.mem_cons, List.not_mem_nil, or_false] at hb
        rcases hb with rfl | rfl | rfl | rfl <;> exact ⟨_, by omega, by omega, rfl⟩
    exact hhigh v hv hlt

theorem toNat_toUInt8 (h : d.toNat < 128) : d.toUInt8.toNat = d.toNat :=
  Nat.mod_eq_of_lt (Nat.lt_trans h (by decide))

theorem utf8Size_ascii (h : d.toNat < 128) : d.utf8Size = 1 := by
  rw [← String.length_utf8EncodeChar]
  rcases utf8EncodeChar_cases d with ⟨-, hd⟩ | ⟨hd, -⟩
  · rw [hd, List.length_singleton]
  · omega

/-- Behind its first byte a character has only bytes from 128 on. -/
theorem exists_first_byte (c : Char) :
    ∃ b bs, String.utf8EncodeChar c = b :: bs ∧ ∀ b ∈ bs, 128 ≤ b.toNat := by
  obtain ⟨b, bs, hbytes⟩ := List.exists_cons_of_ne_nil (String.utf8EncodeChar_ne_nil (c := c))
  refine ⟨b, bs, hbytes, fun b' hb' => ?_⟩
  rcases utf8EncodeChar_cases c with ⟨-, h⟩ | ⟨-, h⟩
  · obtain ⟨-, rfl⟩ := List.cons.inj (hbytes.symm.trans h)
    cases hb'
  · exact h b' (hbytes ▸ List.mem_cons_of_mem b hb')

/-- A byte of a character is that of an ASCII character only if they are the same. -/
theorem beq_of_mem (hb : b ∈ String.utf8EncodeChar c) (hd : d.toNat < 128) :
    (b == d.toUInt8) = (c == d) := by
  rw [Bool.eq_iff_iff, beq_iff_eq, beq_iff_eq]
  have hbyte := toNat_toUInt8 hd
  rcases utf8EncodeChar_cases c with ⟨hc, h⟩ | ⟨hc, h⟩
  · obtain rfl := List.mem_singleton.1 (h ▸ hb)
    refine ⟨fun e => Char.toNat_inj.1 ?_, fun e => e ▸ rfl⟩
    rw [← toNat_toUInt8 hc, ← hbyte, e]
  · have hhigh := h b hb
    constructor
    · rintro rfl
      omega
    · rintro rfl
      omega

/-! ## Tests of bytes -/

/-- The test of bytes answers for the bytes of a character as the other for the character. -/
def Reads (p : UInt8 → Bool) (P : Char → Bool) : Prop :=
  ∀ c, ∀ b ∈ String.utf8EncodeChar c, p b = P c

variable {p : UInt8 → Bool} {P : Char → Bool}

theorem encode_cons (c : Char) (cs : List Char) :
    encode (c :: cs) = String.utf8EncodeChar c ++ encode cs := rfl

theorem encode_ascii (h : d.toNat < 128) (cs : List Char) :
    encode (d :: cs) = d.toUInt8 :: encode cs := by
  rcases utf8EncodeChar_cases d with ⟨-, hd⟩ | ⟨hd, -⟩
  · rw [encode_cons, hd, List.singleton_append]
  · omega

theorem length_encode (cs : List Char) : (encode cs).length = byteLength cs := by
  induction cs with
  | nil => rfl
  | cons c cs ih => rw [encode_cons, List.length_append, String.length_utf8EncodeChar, ih]; rfl

theorem byteLength_toList (s : String) : byteLength s.toList = s.utf8ByteSize := by
  rw [← length_encode, ← String.size_toByteArray, ← String.utf8Encode_toList]
  exact List.size_toByteArray.symm

/-- The bytes behind the front of a text. -/
theorem drop_encode (front cs : List Char) :
    (encode (front ++ cs)).drop (byteLength front) = encode cs := by
  rw [encode, List.flatMap_append, ← length_encode]
  exact List.drop_left

theorem length_takeWhile_encode (h : Reads p P) (cs : List Char) :
    ((encode cs).takeWhile p).length = byteLength (cs.takeWhile P) := by
  induction cs with
  | nil => rfl
  | cons c cs ih =>
    rw [encode_cons]
    by_cases hc : P c = true
    · have hall : ∀ b ∈ String.utf8EncodeChar c, p b = true := fun b hb => (h c b hb).trans hc
      rw [List.takeWhile_append_of_pos hall, List.takeWhile_cons_of_pos hc, List.length_append,
        String.length_utf8EncodeChar, ih]
      rfl
    · obtain ⟨b, bs, hbytes, -⟩ := exists_first_byte c
      have hb : ¬ p b = true := by rwa [h c b (hbytes ▸ List.mem_cons_self)]
      rw [hbytes, List.cons_append, List.takeWhile_cons_of_neg hb, List.takeWhile_cons_of_neg hc]
      rfl

/-- A text with a character has a first byte, and it is of the first character. -/
theorem exists_head?_encode (c : Char) (cs : List Char) :
    ∃ b ∈ String.utf8EncodeChar c, (encode (c :: cs)).head? = some b := by
  obtain ⟨b, bs, hbytes, -⟩ := exists_first_byte c
  refine ⟨b, hbytes ▸ List.mem_cons_self, ?_⟩
  rw [encode_cons, hbytes]
  rfl

end GoDecls.Text

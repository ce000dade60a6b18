/-
  Byte offsets in a text.  A text is a list of characters; its offsets count the
  bytes of its UTF-8 form.

  * `byteLength` is the number of bytes of a text, and additive (`byteLength_append`);
  * `cut?` splits a text at an offset, if a character begins or the text ends
    there, and loses nothing (`append_of_cut?`);
  * `slice?` is the part between two offsets.
-/
namespace GoDecls.Text

/-- The number of bytes of the text in UTF-8. -/
def byteLength : List Char → Nat
  | [] => 0
  | c :: cs => c.utf8Size + byteLength cs

@[simp] theorem byteLength_nil : byteLength [] = 0 := rfl

@[simp] theorem byteLength_cons (c : Char) (cs : List Char) :
    byteLength (c :: cs) = c.utf8Size + byteLength cs := rfl

@[simp] theorem byteLength_append (a b : List Char) :
    byteLength (a ++ b) = byteLength a + byteLength b := by
  induction a with
  | nil => simp
  | cons c a ih => simp [ih, Nat.add_assoc]

theorem byteLength_eq_zero {cs : List Char} : byteLength cs = 0 ↔ cs = [] := by
  cases cs with
  | nil => simp
  | cons c cs =>
    have := Char.utf8Size_pos c
    simp only [byteLength_cons, reduceCtorEq, iff_false]
    omega

/-- The first `n` bytes and the rest, if `n` is a character boundary. -/
def cut? : List Char → Nat → Option (List Char × List Char)
  | cs, 0 => some ([], cs)
  | [], _ + 1 => none
  | c :: cs, n + 1 =>
    if c.utf8Size ≤ n + 1 then
      (cut? cs (n + 1 - c.utf8Size)).map fun p => (c :: p.1, p.2)
    else none

/-- The part of the text from byte `start` up to byte `stop`, if both are
    boundaries in this order. -/
def slice? (cs : List Char) (start stop : Nat) : Option (List Char) :=
  if start ≤ stop then
    (cut? cs start).bind fun p => (cut? p.2 (stop - start)).map Prod.fst
  else none

theorem append_of_cut? {cs a b : List Char} {n : Nat} (h : cut? cs n = some (a, b)) :
    cs = a ++ b ∧ byteLength a = n := by
  induction cs generalizing n a with
  | nil =>
    cases n with
    | zero => simp only [cut?, Option.some.injEq, Prod.mk.injEq] at h; simp [← h.1, ← h.2]
    | succ n => simp [cut?] at h
  | cons c cs ih =>
    cases n with
    | zero => simp only [cut?, Option.some.injEq, Prod.mk.injEq] at h; simp [← h.1, ← h.2]
    | succ n =>
      simp only [cut?] at h
      split at h
      · obtain ⟨⟨a', b'⟩, h', e⟩ := Option.map_eq_some_iff.1 h
        simp only [Prod.mk.injEq] at e
        obtain ⟨rfl, rfl⟩ := e
        obtain ⟨rfl, hn⟩ := ih h'
        simp only [List.cons_append, byteLength_cons, true_and]
        omega
      · simp at h

@[simp] theorem cut?_append (a b : List Char) : cut? (a ++ b) (byteLength a) = some (a, b) := by
  induction a with
  | nil => cases b <;> simp [cut?]
  | cons c a ih =>
    have hc := Char.utf8Size_pos c
    obtain ⟨n, hn⟩ : ∃ n, c.utf8Size + byteLength a = n + 1 := ⟨_, (Nat.succ_pred (by omega)).symm⟩
    have h : n + 1 - c.utf8Size = byteLength a := by omega
    simp only [List.cons_append, byteLength_cons, hn, cut?, h, ih]
    simp only [Option.map_some, ite_eq_left_iff]
    omega

/-- The slice between the ends of a middle part is that part. -/
theorem slice?_append (a b c : List Char) :
    slice? (a ++ b ++ c) (byteLength a) (byteLength (a ++ b)) = some b := by
  have h : byteLength a ≤ byteLength (a ++ b) := by simp
  simp [slice?]

end GoDecls.Text

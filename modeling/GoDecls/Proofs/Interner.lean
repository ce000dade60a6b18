/-
  What symbols stand for.

  * `Interner.Sound`: no text stands twice, and each bucket holds just the symbols of
    the texts with its hash.  Interning keeps this, whatever the hash is (`Sound.intern`),
    as long as there is a number for the next text;
  * `Interns t xs ss t'`: from `t` on the texts `xs` get the symbols `ss`, and all that
    stands for a text goes on to stand for it; `interns_internAll`: a run does this;
  * `internAll_identifies`: symbols are equal just if their texts are.
-/
import Mathlib.Data.Finset.Card
import Mathlib.Data.List.Forall2
import GoDecls.Interner

namespace GoDecls.Interner

variable {hash : String → UInt64} {t t' : Interner hash} {x y : String} {s s' : Symbol}

/-! ## Single texts -/

theorem text?_eq_some_iff : t.text? s = some x ↔ t.texts.toList[s.number.toNat]? = some x := by
  rw [text?, Array.getElem?_toList]

/-- The texts are there once, under numbers that there are, and the buckets are those of the
    hash. -/
structure Sound (t : Interner hash) : Prop where
  nodup : t.texts.toList.Nodup
  size_le : t.texts.size ≤ UInt32.size
  mem_bucket : ∀ h s, s ∈ t.bucket h ↔ ∃ x, t.text? s = some x ∧ hash x = h

theorem sound_empty : (empty : Interner hash).Sound where
  nodup := List.nodup_nil
  size_le := Nat.zero_le _
  mem_bucket h s := by simp [bucket, empty, text?]

/-- A text has one symbol at most. -/
theorem Sound.symbol_unique (ht : t.Sound) (hs : t.text? s = some x) (hs' : t.text? s' = some x) :
    s = s' := by
  rw [text?_eq_some_iff] at hs hs'
  obtain ⟨hlt, hx⟩ := List.getElem?_eq_some_iff.1 hs
  obtain ⟨hlt', hx'⟩ := List.getElem?_eq_some_iff.1 hs'
  have hnumber := (ht.nodup.getElem_inj_iff).1 (hx.trans hx'.symm)
  cases s
  cases s'
  exact congrArg Symbol.mk (UInt32.toNat_inj.1 hnumber)

/-- Every text of the interner has a symbol. -/
theorem Sound.exists_symbol (ht : t.Sound) (hx : x ∈ t.texts.toList) :
    ∃ s, t.text? s = some x := by
  obtain ⟨n, hn, rfl⟩ := List.getElem_of_mem hx
  have hsize : n < UInt32.size := Nat.lt_of_lt_of_le hn ht.size_le
  refine ⟨⟨UInt32.ofNat n⟩, ?_⟩
  rw [text?_eq_some_iff, UInt32.toNat_ofNat_of_lt' hsize]
  exact List.getElem?_eq_getElem hn

theorem mem_texts_of_text? (hs : t.text? s = some x) : x ∈ t.texts.toList :=
  List.mem_of_getElem? (text?_eq_some_iff.1 hs)

/-! ## Interning -/

/-- A text that is there keeps its symbol. -/
theorem Sound.intern_of_text? (ht : t.Sound) (hs : t.text? s = some x) : t.intern x = (s, t) := by
  have hmem : s ∈ t.bucket (hash x) := (ht.mem_bucket _ _).2 ⟨x, hs, rfl⟩
  rw [intern]
  cases hfind : (t.bucket (hash x)).find? (t.text? · = some x) with
  | none => exact absurd (decide_eq_true hs) (List.find?_eq_none.1 hfind s hmem)
  | some s' =>
    have hs' : t.text? s' = some x := by simpa using List.find?_some hfind
    rw [ht.symbol_unique hs hs']

/-- The symbol that a new text gets, and the interner then. -/
theorem intern_of_notMem (hx : x ∉ t.texts.toList) :
    t.intern x = (⟨UInt32.ofNat t.texts.size⟩, ⟨t.texts.push x, t.buckets.insert (hash x)
      (t.bucket (hash x) ++ [⟨UInt32.ofNat t.texts.size⟩])⟩) := by
  have hfind : (t.bucket (hash x)).find? (t.text? · = some x) = none := by
    refine List.find?_eq_none.2 fun s _ hs => hx ?_
    exact mem_texts_of_text? (of_decide_eq_true hs)
  rw [intern]
  simp only [hfind]

/-- What stands for a text goes on to stand for it. -/
theorem text?_of_grown (h : t.texts.toList <+: t'.texts.toList) (hs : t.text? s = some x) :
    t'.text? s = some x := by
  rw [text?_eq_some_iff] at hs ⊢
  obtain ⟨more, hmore⟩ := h
  rw [← hmore, List.getElem?_append_left (List.getElem?_eq_some_iff.1 hs).1, hs]

/-- With one text more, its symbol stands for it and the others for what they did. -/
theorem text?_of_concat {new : Symbol} (htexts : t'.texts.toList = t.texts.toList ++ [x])
    (hnew : new.number.toNat = t.texts.toList.length) :
    t'.text? s = some y ↔ t.text? s = some y ∨ s = new ∧ x = y := by
  have hlast : t'.text? new = some x := by
    rw [text?_eq_some_iff, htexts, hnew, List.getElem?_concat_length]
  have hprefix : t.texts.toList <+: t'.texts.toList := ⟨[x], htexts.symm⟩
  constructor
  · intro h
    by_cases hs : s.number.toNat < t.texts.toList.length
    · rw [text?_eq_some_iff, htexts, List.getElem?_append_left hs] at h
      exact .inl (text?_eq_some_iff.2 h)
    · obtain ⟨hlt, -⟩ := List.getElem?_eq_some_iff.1 (text?_eq_some_iff.1 h)
      rw [htexts, List.length_append, List.length_singleton] at hlt
      have hnumber : s.number.toNat = new.number.toNat := by omega
      have heq : s = new := by
        cases s
        cases new
        exact congrArg Symbol.mk (UInt32.toNat_inj.1 hnumber)
      rw [heq, hlast] at h
      exact .inr ⟨heq, Option.some.inj h⟩
  · rintro (h | ⟨rfl, rfl⟩)
    · exact text?_of_grown hprefix h
    · exact hlast

/-- An interner is sound with one text more, if its symbol is put under its hash. -/
theorem Sound.concat (ht : t.Sound) (hx : x ∉ t.texts.toList) (hsize : t.texts.size < UInt32.size)
    {new : Symbol} (htexts : t'.texts.toList = t.texts.toList ++ [x])
    (hnew : new.number.toNat = t.texts.toList.length)
    (hbucket : ∀ h, t'.bucket h = t.bucket h ++ if hash x = h then [new] else []) : t'.Sound where
  nodup := by
    rw [htexts, List.nodup_append]
    refine ⟨ht.nodup, List.nodup_singleton x, fun y hy z hz heq => hx ?_⟩
    rwa [← List.mem_singleton.1 hz, ← heq]
  size_le := by
    rw [← Array.length_toList, htexts, List.length_append, Array.length_toList]
    exact hsize
  mem_bucket h s := by
    have hnewest : s ∈ (if hash x = h then [new] else []) ↔ s = new ∧ hash x = h := by
      split <;> simp [*]
    rw [hbucket, List.mem_append, ht.mem_bucket, hnewest]
    simp only [text?_of_concat htexts hnew]
    constructor
    · rintro (⟨y, hs, hy⟩ | ⟨hs, hh⟩)
      · exact ⟨y, .inl hs, hy⟩
      · exact ⟨x, .inr ⟨hs, rfl⟩, hh⟩
    · rintro ⟨y, hs | ⟨hs, rfl⟩, hy⟩
      · exact .inl ⟨y, hs, hy⟩
      · exact .inr ⟨hs, hy⟩

/-- What interning a text comes to: a symbol that stands for it, in an interner that has
    this text and the ones before. -/
structure Interns (t : Interner hash) (x : String) (s : Symbol) (t' : Interner hash) : Prop where
  sound : t'.Sound
  symbol : t'.text? s = some x
  texts : t.texts.toList <+: t'.texts.toList
  mem : ∀ y, y ∈ t'.texts.toList ↔ y ∈ t.texts.toList ∨ y = x

/-- **Interning one text.**  It gets a symbol of its own, if it has none and there is a number
    left. -/
theorem Sound.intern (ht : t.Sound) (hroom : x ∈ t.texts.toList ∨ t.texts.size < UInt32.size) :
    t.Interns x (t.intern x).1 (t.intern x).2 := by
  by_cases hx : x ∈ t.texts.toList
  · obtain ⟨s, hs⟩ := ht.exists_symbol hx
    rw [ht.intern_of_text? hs]
    refine ⟨ht, hs, List.prefix_refl _, fun y => ⟨.inl, ?_⟩⟩
    rintro (hy | rfl)
    · exact hy
    · exact hx
  · have hsize := hroom.resolve_left hx
    rw [intern_of_notMem hx]
    generalize hnew : Symbol.mk (UInt32.ofNat t.texts.size) = new
    generalize ht' : @Interner.mk hash (t.texts.push x) _ = t'
    have htexts : t'.texts.toList = t.texts.toList ++ [x] := by
      rw [← ht', Array.toList_push]
    have hnumber : new.number.toNat = t.texts.toList.length := by
      rw [← hnew, UInt32.toNat_ofNat_of_lt' hsize, Array.length_toList]
    have hbucket : ∀ h, t'.bucket h = t.bucket h ++ if hash x = h then [new] else [] := by
      intro h
      rw [← ht', bucket, Std.HashMap.getD_insert]
      by_cases hh : hash x = h <;> simp [hh, bucket]
    refine ⟨ht.concat hx hsize htexts hnumber hbucket, ?_, ⟨[x], htexts.symm⟩, fun y => ?_⟩
    · exact (text?_of_concat htexts hnumber).2 (.inr ⟨rfl, rfl⟩)
    · rw [htexts, List.mem_append, List.mem_singleton]

/-! ## Runs -/

/-- What interning texts in turn comes to: each has a symbol that stands for it at the end. -/
structure InternsAll (t : Interner hash) (xs : List String) (ss : List Symbol)
    (t' : Interner hash) : Prop where
  sound : t'.Sound
  symbols : List.Forall₂ (fun x s => t'.text? s = some x) xs ss
  texts : t.texts.toList <+: t'.texts.toList
  mem : ∀ y, y ∈ t'.texts.toList ↔ y ∈ t.texts.toList ∨ y ∈ xs

/-- **Interning texts in turn.**  There have to be numbers for all that are different. -/
theorem Sound.internAll (ht : t.Sound) {xs : List String}
    (hroom : (t.texts.toList ++ xs).toFinset.card ≤ UInt32.size) :
    t.InternsAll xs (t.internAll xs).1 (t.internAll xs).2 := by
  induction xs generalizing t with
  | nil =>
    rw [Interner.internAll]
    exact ⟨ht, .nil, List.prefix_refl _, by simp⟩
  | cons x xs ih =>
    have hfirst : x ∈ t.texts.toList ∨ t.texts.size < UInt32.size := by
      by_cases hx : x ∈ t.texts.toList
      · exact .inl hx
      · refine .inr (Nat.lt_of_lt_of_le ?_ hroom)
        rw [← Array.length_toList, ← List.toFinset_card_of_nodup ht.nodup, List.toFinset_append]
        refine Finset.card_lt_card ((Finset.ssubset_iff_of_subset Finset.subset_union_left).2 ?_)
        exact ⟨x, by simp, by rwa [List.mem_toFinset]⟩
    have h := ht.intern hfirst
    have hrest : ((t.intern x).2.texts.toList ++ xs).toFinset.card ≤ UInt32.size := by
      refine Nat.le_trans (Finset.card_le_card fun y hy => ?_) hroom
      simp only [List.mem_toFinset, List.mem_append, h.mem, List.mem_cons] at hy ⊢
      tauto
    have hmore := ih h.sound hrest
    rw [Interner.internAll]
    refine ⟨hmore.sound, .cons (text?_of_grown hmore.texts h.symbol) hmore.symbols,
      h.texts.trans hmore.texts, fun y => ?_⟩
    rw [hmore.mem, h.mem, List.mem_cons, or_assoc]

/-- **Symbols are equal just if their texts are**, whatever the hash is.  With fewer than
    `2 ^ 32` texts that are different, every call gives a symbol, which resolves to its text at
    once and after any further calls, and symbols that were not made resolve to the empty
    text. -/
theorem internAll_identifies (hash : String → UInt64) {xs ys : List String}
    (hfew : (xs ++ ys).toFinset.card < UInt32.size) :
    let made := (empty : Interner hash).internAll xs
    let later := made.2.internAll ys
    made.1.length = xs.length ∧
      (∀ p ∈ xs.zip made.1, ∀ q ∈ xs.zip made.1, p.2 = q.2 ↔ p.1 = q.1) ∧
      (∀ p ∈ xs.zip made.1, made.2.resolve p.2 = p.1 ∧ later.2.resolve p.2 = p.1) ∧
      ∀ s ∉ made.1, made.2.resolve s = "" := by
  intro made later
  have h : (empty : Interner hash).InternsAll xs made.1 made.2 := by
    refine sound_empty.internAll (Nat.le_trans (Finset.card_le_card fun y hy => ?_) hfew.le)
    simp only [List.mem_toFinset, List.mem_append] at hy ⊢
    exact .inl (hy.resolve_left List.not_mem_nil)
  have hmem : ∀ y, y ∈ made.2.texts.toList ↔ y ∈ xs := fun y =>
    (h.mem y).trans (or_iff_right List.not_mem_nil)
  have h' : made.2.InternsAll ys later.1 later.2 := by
    refine h.sound.internAll (Nat.le_trans (Finset.card_le_card fun y hy => ?_) hfew.le)
    simpa only [List.mem_toFinset, List.mem_append, hmem] using hy
  obtain ⟨hlength, hzip⟩ := List.forall₂_iff_zip.1 h.symbols
  have hsymbol : ∀ p ∈ xs.zip made.1, made.2.text? p.2 = some p.1 := fun p hp => hzip hp
  refine ⟨hlength.symm, fun p hp q hq => ⟨fun heq => ?_, fun heq => ?_⟩,
    fun p hp => ⟨?_, ?_⟩, fun s hs => ?_⟩
  · have hp' := hsymbol p hp
    rw [heq, hsymbol q hq] at hp'
    exact (Option.some.inj hp').symm
  · have hp' := hsymbol p hp
    rw [heq] at hp'
    exact h.sound.symbol_unique hp' (hsymbol q hq)
  · rw [resolve, hsymbol p hp]
    rfl
  · rw [resolve, text?_of_grown h'.texts (hsymbol p hp)]
    rfl
  · cases hs' : made.2.text? s with
    | none => rw [resolve, hs', Option.getD_none]
    | some x =>
      have hx : x ∈ (xs.zip made.1).map Prod.fst := by
        rw [List.map_fst_zip hlength.le]
        exact (hmem x).1 (mem_texts_of_text? hs')
      obtain ⟨p, hp, rfl⟩ := List.mem_map.1 hx
      rw [h.sound.symbol_unique hs' (hsymbol p hp)] at hs
      exact absurd (List.of_mem_zip hp).2 hs

/-- All texts share a bucket here. -/
theorem internAll_identifies_colliding :
    (["a", "b", "a"] ++ ["c", "b"]).toFinset.card < UInt32.size ∧
      let made := (empty : Interner fun _ => 0).internAll ["a", "b", "a"]
      let later := made.2.internAll ["c", "b"]
      made.1.length = 3 ∧
        (∀ p ∈ ["a", "b", "a"].zip made.1, ∀ q ∈ ["a", "b", "a"].zip made.1,
          p.2 = q.2 ↔ p.1 = q.1) ∧
        (∀ p ∈ ["a", "b", "a"].zip made.1,
          made.2.resolve p.2 = p.1 ∧ later.2.resolve p.2 = p.1) ∧
        ∀ s ∉ made.1, made.2.resolve s = "" := by
  have hfew : (["a", "b", "a"] ++ ["c", "b"]).toFinset.card < UInt32.size := by decide
  exact ⟨hfew, internAll_identifies _ hfew⟩

end GoDecls.Interner

/-
  Balanced brackets, and what is found by looking ahead over them.

  Brackets of the three shapes count alike.  A list of tokens is `Balanced` if
  none of its brackets closes before one has opened and all are closed in the
  end.  Behind balanced tokens the two searches for a closing bracket go on
  where they were (`afterClose?_append`, `lengthExtent?_append`).
-/
import GoDecls.Proofs.Tree.Reading
import GoDecls.Tree.Types

namespace GoDecls.Tree

/-- The depth behind the tokens; none if a bracket closes at depth zero. -/
def depthAfter? : Nat → List Token → Option Nat
  | d, [] => some d
  | d, t :: ts => if t.closes ∧ d = 0 then none else depthAfter? (nest d t) ts

/-- Every bracket that opens is closed, and every one that closes was opened. -/
def Balanced (ts : List Token) : Prop := depthAfter? 0 ts = some 0

instance (ts : List Token) : Decidable (Balanced ts) :=
  inferInstanceAs (Decidable (depthAfter? 0 ts = some 0))

theorem Token.closes_of_opens {t : Token} (h : t.opens = true) : t.closes = false := by
  cases t with
  | punct p => cases p <;> first | rfl | cases h
  | _ => rfl

theorem Token.opens_of_closes {t : Token} (h : t.closes = true) : t.opens = false := by
  cases ho : t.opens with
  | false => rfl
  | true =>
    rw [closes_of_opens ho] at h
    cases h

theorem nest_of_opens {t : Token} (h : t.opens = true) (d : Nat) : nest d t = d + 1 := by
  rw [nest, if_pos h]

theorem nest_add {t : Token} {d : Nat} (h : ¬ (t.closes = true ∧ d = 0)) (k : Nat) :
    nest (d + k) t = nest d t + k := by
  unfold nest
  split
  · omega
  · split
    · next hc =>
      have : d ≠ 0 := fun hd => h ⟨hc, hd⟩
      omega
    · rfl

theorem depthAfter?_append (ts us : List Token) (d : Nat) :
    depthAfter? d (ts ++ us) = (depthAfter? d ts).bind (depthAfter? · us) := by
  induction ts generalizing d with
  | nil => rfl
  | cons t ts ih =>
    simp only [List.cons_append, depthAfter?]
    split
    · rfl
    · exact ih _

/-- Brackets around the tokens only add to the depth. -/
theorem depthAfter?_add {ts : List Token} {d e : Nat} (h : depthAfter? d ts = some e) (k : Nat) :
    depthAfter? (d + k) ts = some (e + k) := by
  induction ts generalizing d with
  | nil => cases h; rfl
  | cons t ts ih =>
    rw [depthAfter?] at h ⊢
    split at h
    · cases h
    · next hn =>
      rw [if_neg fun hc => hn ⟨hc.1, by omega⟩, nest_add hn]
      exact ih h

namespace Balanced

variable {ts us : List Token} {t u : Token}

theorem nil : Balanced [] := rfl

theorem append (h : Balanced ts) (h' : Balanced us) : Balanced (ts ++ us) := by
  rw [Balanced, depthAfter?_append, h]
  exact h'

/-- A token that is no bracket may stand in front. -/
theorem cons_iff (ho : t.opens = false) (hc : t.closes = false) :
    Balanced (t :: ts) ↔ Balanced ts := by
  simp only [Balanced, depthAfter?, nest, ho, hc, Bool.false_eq_true, false_and, if_false]

theorem cons (ho : t.opens = false) (hc : t.closes = false) (h : Balanced ts) :
    Balanced (t :: ts) := (cons_iff ho hc).2 h

theorem enclosed (ho : t.opens = true) (hn : u.opens = false) (hc : u.closes = true)
    (h : Balanced ts) : Balanced (t :: (ts ++ [u])) := by
  rw [Balanced, depthAfter?, if_neg (by simp [Token.closes_of_opens ho]), nest_of_opens ho,
    depthAfter?_append, depthAfter?_add h 1]
  simp [depthAfter?, nest, hn, hc]

/-- A closing bracket is not the first of balanced tokens. -/
theorem ne_cons_of_closes (hc : t.closes = true) : ¬ Balanced (t :: ts) := by
  simp [Balanced, depthAfter?, hc]

theorem listed {sep : Punct} {closing : Bool} (ho : sep.opens = false) (hc : sep.closes = false) :
    ∀ {xs : List (List Token)}, (∀ x ∈ xs, Balanced x) → Balanced (listed sep closing xs)
  | [], _ => nil
  | [x], h => by
    have hx := h x (List.mem_singleton_self x)
    unfold Tree.listed
    split
    · exact hx.append (nil.cons ho hc)
    · exact hx
  | x :: y :: ys, h =>
    (h x List.mem_cons_self).append
      ((listed ho hc fun z hz => h z (List.mem_cons_of_mem x hz)).cons ho hc)

end Balanced

/-! ## Looking ahead -/

theorem afterClose?_append {front : List Lexeme} {d e : Nat}
    (h : depthAfter? d (front.map Lexeme.token) = some e) (rest : List Lexeme) :
    afterClose? (d + 1) (front ++ rest) = afterClose? (e + 1) rest := by
  induction front generalizing d with
  | nil => cases h; rfl
  | cons l ls ih =>
    rw [List.map_cons, depthAfter?] at h
    split at h
    · cases h
    · next hn =>
      have hgo : ¬ ((l.token.closes && decide (d + 1 ≤ 1)) = true) := by
        simpa using hn
      rw [List.cons_append, afterClose?, if_neg hgo, nest_add hn]
      exact ih h

theorem lengthExtent?_append {front : List Lexeme} {d e : Nat}
    (h : depthAfter? d (front.map Lexeme.token) = some e) (rest : List Lexeme) :
    lengthExtent? d (front ++ rest) = (lengthExtent? e rest).map (· + front.length) := by
  induction front generalizing d with
  | nil => cases h; simp
  | cons l ls ih =>
    rw [List.map_cons, depthAfter?] at h
    split at h
    · cases h
    · next hn =>
      have hgo : ¬ (l.token = .punct .rbrack ∧ d = 0) := fun ⟨hl, hd⟩ => hn ⟨by rw [hl]; rfl, hd⟩
      rw [List.cons_append, lengthExtent?, if_neg hgo, ih h, Option.map_map]
      rfl

section

variable {ls rs : List Lexeme} {u v : Token} {ts : List Token}

theorem afterClose?_of_opens {l : Lexeme} (h : l.token.opens = true) (ls : List Lexeme) :
    afterClose? 0 (l :: ls) = afterClose? 1 ls := by
  rw [afterClose?, nest_of_opens h, Token.closes_of_opens h]
  rfl

/-- Looking ahead over brackets stops behind the one that closes at depth zero. -/
theorem bracketThenType_of_closing (front back : List Token)
    (h : ls.map Lexeme.token = u :: (front ++ v :: back)) (hu : u.opens = true)
    (hfront : depthAfter? 0 front = some 0) (hv : v.closes = true) :
    bracketThenType ls = back.head?.any Token.startsType := by
  obtain ⟨l, ls, rfl, rfl, hls⟩ := List.map_eq_cons_iff.1 h
  obtain ⟨lfront, ls', rfl, rfl, hls'⟩ := List.map_eq_append_iff.1 hls
  obtain ⟨l', ls', rfl, rfl, rfl⟩ := List.map_eq_cons_iff.1 hls'
  have hclose : afterClose? 1 (l' :: ls') = some ls' := by
    rw [afterClose?, hv]
    rfl
  rw [bracketThenType, afterClose?_of_opens hu, afterClose?_append hfront, hclose, Option.bind_some]
  cases ls' <;> rfl

/-- Behind balanced tokens in brackets, the token ahead decides whether a type
    follows. -/
theorem bracketThenType_of_spells (hb : Balanced ts)
    (h : Spells ls (.punct .lbrack :: (ts ++ [.punct .rbrack])) rs) :
    bracketThenType ls = rs.head?.any (·.token.startsType) := by
  obtain ⟨front, rfl, hfront⟩ := h
  rw [bracketThenType_of_closing (u := .punct .lbrack) (v := .punct .rbrack) ts
    (rs.map Lexeme.token) (by rw [List.map_append, hfront]; simp) rfl hb rfl]
  cases rs <;> rfl

end

end GoDecls.Tree

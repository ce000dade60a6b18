/-
  Reading the same tokens at two places.

  * `Shut n ts`: behind the tokens no bracket is open, if `n` were before them, so that
    looking ahead over them for the end of a bracket ends there;
  * `Past ts c d`: the cursor `d` is behind the tokens `ts` at `c`;
  * `Meets σ x x' c c'`: the cursors are at the same tokens, behind which come `x` and
    `x'`; stretches of these tokens stand at places with `σ`;
  * `Outcome.Echoes x P r o o'`: if a value of `o` is read from the tokens before `x`
    alone, `o'` gives one that has `r` to it, of the same tokens.  There is one rule for
    each way of putting readers together.

  A reader that ends with a bracket does not look at `x`; for the others `x` and `x'`
  begin alike, or what `x'` begins with does not go on with what is read (`Ends`).
-/
import GoDecls.Proofs.Tree.Alike
import GoDecls.Proofs.Tree.Balance
import GoDecls.Proofs.Tree.Loops

namespace GoDecls.Tree

/-! ## Brackets in what is read -/

/-- Behind the tokens no bracket is open, if `n` were before them.  A bracket that closes
    where none is open counts for nothing. -/
def Shut (n : Nat) (ts : List Token) : Prop := ts.foldl nest n = 0

section

variable {ts us : List Token} {t : Token} {m n : Nat}

theorem nest_le_add {d e k : Nat} (h : d ≤ k + e) : nest d t ≤ k + nest e t := by
  unfold nest
  split
  · omega
  · split <;> omega

/-- Brackets that were open before only add to the depth. -/
theorem foldl_nest_le_add {d e k : Nat} (h : d ≤ k + e) : ts.foldl nest d ≤ k + ts.foldl nest e := by
  induction ts generalizing d e with
  | nil => exact h
  | cons t ts ih => exact ih (nest_le_add h)

theorem nest_of_closes (h : t.closes = true) (d : Nat) : nest d t = d - 1 := by
  rw [nest, Token.opens_of_closes h, h]
  rfl

theorem nest_of_plain (ho : t.opens = false) (hc : t.closes = false) (d : Nat) : nest d t = d := by
  rw [nest, ho, hc]
  rfl

theorem foldl_nest_of_depthAfter? {d e : Nat} (h : depthAfter? d ts = some e) :
    ts.foldl nest d = e := by
  induction ts generalizing d with
  | nil =>
    cases h
    rfl
  | cons t ts ih =>
    rw [depthAfter?] at h
    split at h
    · cases h
    · exact ih h

theorem Shut.nil : Shut 0 [] := rfl

theorem Shut.mono (h : Shut n ts) (hle : m ≤ n) : Shut m ts := by
  have hadd : ts.foldl nest m ≤ 0 + ts.foldl nest n := foldl_nest_le_add (by omega)
  rw [h] at hadd
  exact Nat.le_zero.1 hadd

theorem Shut.append (h : Shut 0 ts) (h' : Shut n us) : Shut n (ts ++ us) := by
  have hle : ts.foldl nest n ≤ n + ts.foldl nest 0 := foldl_nest_le_add (Nat.le_refl n)
  rw [h] at hle
  rw [Shut, List.foldl_append]
  exact h'.mono hle

theorem Shut.cons_opening (ho : t.opens = true) (h : Shut (n + 1) ts) : Shut n (t :: ts) := by
  rw [Shut, List.foldl_cons, nest_of_opens ho]
  exact h

theorem Shut.cons_closing (hc : t.closes = true) (h : Shut n ts) : Shut (n + 1) (t :: ts) := by
  rw [Shut, List.foldl_cons, nest_of_closes hc]
  exact h

theorem shut_cons_plain (ho : t.opens = false) (hc : t.closes = false) :
    Shut n (t :: ts) ↔ Shut n ts := by
  rw [Shut, List.foldl_cons, nest_of_plain ho hc]
  exact Iff.rfl

theorem Shut.cons_plain (ho : t.opens = false) (hc : t.closes = false) (h : Shut n ts) :
    Shut n (t :: ts) := (shut_cons_plain ho hc).2 h

theorem shut_closing (h : t.closes = true) : Shut 1 [t] := Shut.nil.cons_closing h

theorem shut_of_ident (h : ∃ s, ts = [.ident s]) : Shut 0 ts := by
  obtain ⟨s, rfl⟩ := h
  exact Shut.nil.cons_plain rfl rfl

/-- In tokens that leave no bracket open, one that opens at the front closes. -/
theorem Shut.depthAfter?_eq_none (h : Shut 0 (t :: ts)) (ht : t.opens = true) :
    depthAfter? 0 ts = none := by
  cases hd : depthAfter? 0 ts with
  | none => rfl
  | some e =>
    have hopen := foldl_nest_of_depthAfter? (depthAfter?_add hd 1)
    rw [Shut, List.foldl_cons, nest_of_opens ht, hopen] at h
    omega

/-- The tokens up to the bracket that closes at depth zero. -/
theorem exists_closing {d : Nat} (h : depthAfter? d ts = none) :
    ∃ front u back, ts = front ++ u :: back ∧ u.closes = true ∧ depthAfter? d front = some 0 := by
  induction ts generalizing d with
  | nil => cases h
  | cons t ts ih =>
    rw [depthAfter?] at h
    split at h
    · next hc => exact ⟨[], t, ts, rfl, hc.1, by rw [hc.2]; rfl⟩
    · next hc =>
      obtain ⟨front, u, back, rfl, hu, hfront⟩ := ih h
      refine ⟨t :: front, u, back, rfl, hu, ?_⟩
      rw [depthAfter?, if_neg hc]
      exact hfront

/-- The tokens of an array length leave no bracket open, also if they close more than
    they open. -/
theorem shut_lengthExtent {ls : List Lexeme} {k n : Nat} (h : lengthExtent? k ls = some n) :
    n ≤ ls.length ∧ Shut k ((ls.take n).map Lexeme.token) := by
  induction ls generalizing k n with
  | nil => cases h
  | cons l ls ih =>
    rw [lengthExtent?] at h
    split at h
    · next hend =>
      cases h
      exact ⟨Nat.zero_le _, hend.2⟩
    · obtain ⟨m, hm, rfl⟩ := Option.map_eq_some_iff.1 h
      obtain ⟨hle, hshut⟩ := ih hm
      exact ⟨Nat.succ_le_succ hle, hshut⟩

/-- Tokens that are balanced in their brackets, and leave none open in them, are balanced
    by themselves. -/
theorem Balanced.of_enclosed {v : Token} (h : Balanced (t :: (ts ++ [v]))) (ht : t.opens = true)
    (hv : v.closes = true) (hts : Shut 0 ts) : Balanced ts := by
  have hinner : depthAfter? 1 ts = some 1 := by
    rw [Balanced, depthAfter?, if_neg (by simp [Token.closes_of_opens ht]), nest_of_opens ht,
      depthAfter?_append] at h
    obtain ⟨e, he, hend⟩ := Option.bind_eq_some_iff.1 h
    rw [depthAfter?] at hend
    split at hend
    · cases hend
    · next hne =>
      have hlast : nest e v = 0 := Option.some.inj hend
      rw [nest_of_closes hv] at hlast
      have : e ≠ 0 := fun he => hne ⟨hv, he⟩
      obtain rfl : e = 1 := by omega
      exact he
  cases hd : depthAfter? 0 ts with
  | some e =>
    have hadd := (depthAfter?_add hd 1).symm.trans hinner
    rw [Balanced, hd, Nat.add_right_cancel (Option.some.inj hadd)]
  | none =>
    -- a bracket in `ts` closes the one at the front, and so one is left open behind it
    obtain ⟨front, w, back, rfl, hw, hfront⟩ := exists_closing hd
    have hback : depthAfter? 0 back = some 1 := by
      rwa [depthAfter?_append, depthAfter?_add hfront 1, Option.bind_some, depthAfter?,
        if_neg (by simp), nest_of_closes hw] at hinner
    rw [Shut, List.foldl_append, foldl_nest_of_depthAfter? hfront, List.foldl_cons,
      nest_of_closes hw, foldl_nest_of_depthAfter? hback] at hts
    cases hts

/-- An array length ends at the same place in lists that begin with the same tokens up
    to there. -/
theorem lengthExtent?_congr {x x' : List Token} (hx : x.head? = x'.head?) {ls ls' : List Lexeme}
    {k n : Nat} (hls : ls.map Lexeme.token = us ++ x) (hls' : ls'.map Lexeme.token = us ++ x')
    (hn : n ≤ us.length) (h : lengthExtent? k ls = some n) : lengthExtent? k ls' = some n := by
  induction us generalizing k n ls ls' with
  | nil =>
    obtain rfl := Nat.le_zero.1 hn
    cases ls with
    | nil => cases h
    | cons l ls =>
      rw [List.nil_append] at hls hls'
      rw [← hls, ← hls'] at hx
      cases ls' with
      | nil => cases hx
      | cons l' ls' =>
        have htoken : l.token = l'.token := Option.some.inj hx
        rw [lengthExtent?] at h ⊢
        rw [← htoken]
        split at h
        · next hend => rw [if_pos hend]
        · obtain ⟨_, -, hn⟩ := Option.map_eq_some_iff.1 h
          cases hn
  | cons u us ih =>
    obtain ⟨l, ls, rfl, rfl, hms⟩ := List.map_eq_cons_iff.1 hls
    obtain ⟨l', ls', rfl, htoken, hms'⟩ := List.map_eq_cons_iff.1 hls'
    rw [lengthExtent?] at h ⊢
    rw [htoken]
    split at h
    · next hend => rwa [if_pos hend]
    · next hend =>
      obtain ⟨m, hm, rfl⟩ := Option.map_eq_some_iff.1 h
      rw [if_neg hend, ih hms hms' (Nat.le_of_succ_le_succ hn) hm]
      rfl

end

/-! ## Two lists of tokens -/

/-- The tokens are the same one by one, and stretches of them stand at places with
    `σ`. -/
structure Twins (σ : Span → Span → Prop) (ls ls' : List Lexeme) : Prop where
  tokens : ls'.map Lexeme.token = ls.map Lexeme.token
  stretch : ∀ i n, n ≠ 0 → i + n ≤ ls.length →
    σ (Tree.stretch ((ls.drop i).take n)) (Tree.stretch ((ls'.drop i).take n))

namespace Twins

variable {σ : Span → Span → Prop} {ls ls' ms ms' : List Lexeme}

theorem length_eq (h : Twins σ ls ls') : ls'.length = ls.length := by
  have := congrArg List.length h.tokens
  rwa [List.length_map, List.length_map] at this

theorem drop (h : Twins σ ls ls') (k : Nat) : Twins σ (ls.drop k) (ls'.drop k) where
  tokens := by rw [List.map_drop, List.map_drop, h.tokens]
  stretch := by
    intro i n hn hle
    rw [List.drop_drop, List.drop_drop]
    rw [List.length_drop] at hle
    exact h.stretch (k + i) n hn (by omega)

theorem take (h : Twins σ ls ls') (k : Nat) : Twins σ (ls.take k) (ls'.take k) where
  tokens := by rw [List.map_take, List.map_take, h.tokens]
  stretch := by
    intro i n hn hle
    rw [List.length_take] at hle
    have htake : ∀ l : List Lexeme, ((l.take k).drop i).take n = (l.drop i).take n := fun l => by
      rw [List.drop_take, List.take_take, Nat.min_eq_left (by omega)]
    rw [htake, htake]
    exact h.stretch i n hn (by omega)

/-- The whole of the tokens, if there are any. -/
theorem whole (h : Twins σ ls ls') (hne : ls ≠ []) : σ (Tree.stretch ls) (Tree.stretch ls') := by
  have := h.stretch 0 ls.length (fun hls => hne (List.length_eq_zero_iff.1 hls)) (by omega)
  rwa [List.drop_zero, List.drop_zero, List.take_length, ← h.length_eq, List.take_length] at this

theorem of_tokens (h : ls'.map Lexeme.token = ls.map Lexeme.token) :
    Twins (fun _ _ => True) ls ls' := ⟨h, fun _ _ _ _ => trivial⟩

end Twins

/-! ## Two cursors -/

namespace Cursor

/-- The tokens that are left. -/
def tokens (c : Cursor) : List Token := c.rest.map Lexeme.token

variable {σ : Span → Span → Prop} {c c' d d' e : Cursor} {t : Token} {x x' ts us : List Token}

theorem length_tokens (c : Cursor) : c.tokens.length = c.left := List.length_map _

theorem token?_eq (c : Cursor) : c.token? = c.tokens.head? := by
  rw [token?, tokens, List.head?_map]

theorem second?_eq (c : Cursor) : c.second? = c.tokens.tail.head? := by
  rw [second?, tokens, ← List.map_tail, List.head?_map]

theorem second?_eq_advance (c : Cursor) : c.second? = c.advance.token? := by
  rw [second?, Cursor.token?, advance_rest]

theorem tokens_advance (c : Cursor) : c.advance.tokens = c.tokens.tail := by
  rw [tokens, advance_rest, List.map_tail]
  rfl

/-- The second cursor is behind the tokens at the first. -/
structure Past (ts : List Token) (c d : Cursor) : Prop where
  skip : d = c.skip ts.length
  tokens : c.tokens = ts ++ d.tokens

namespace Past

theorem refl (c : Cursor) : Past [] c c := ⟨rfl, rfl⟩

theorem skip_add (c : Cursor) (m n : Nat) : c.skip (m + n) = (c.skip m).skip n := by
  induction m generalizing c with
  | zero => rw [Nat.zero_add]; rfl
  | succ m ih => rw [Nat.succ_add, Cursor.skip, ih, Cursor.skip]

theorem trans (h : Past ts c d) (h' : Past us d e) : Past (ts ++ us) c e where
  skip := by rw [List.length_append, skip_add, ← h.skip, h'.skip]
  tokens := by rw [h.tokens, h'.tokens, List.append_assoc]

theorem advance (h : c.token? = some t) : Past [t] c c.advance where
  skip := rfl
  tokens := by
    rw [token?_eq] at h
    obtain ⟨ts, hts⟩ := List.head?_eq_some_iff.1 h
    rw [tokens_advance, hts]
    rfl

theorem of_skip {n : Nat} (hn : n ≤ c.left) : Past ((c.rest.take n).map Lexeme.token) c (c.skip n) where
  skip := by
    have : n ≤ c.rest.length := hn
    rw [List.length_map, List.length_take, Nat.min_eq_left this]
  tokens := by
    rw [Cursor.tokens, Cursor.tokens, skip_rest, ← List.map_append, List.take_append_drop]

theorem rest (h : Past ts c d) : d.rest = c.rest.drop ts.length := by rw [h.skip, skip_rest]

theorem left (h : Past ts c d) : c.left = ts.length + d.left := by
  rw [← length_tokens, h.tokens, List.length_append, length_tokens]

theorem token? (h : Past (t :: ts) c d) : c.token? = some t := by
  rw [token?_eq, h.tokens]
  rfl

theorem split (h : Past (ts ++ us) c d) : ∃ e, Past ts c e ∧ Past us e d := by
  have htokens := h.tokens
  have hle : ts.length ≤ c.left := by
    have := h.left
    rw [List.length_append] at this
    omega
  have hfront := of_skip hle
  have htake : (c.rest.take ts.length).map Lexeme.token = ts := by
    rw [List.map_take, ← Cursor.tokens, htokens, List.append_assoc, List.take_left]
  rw [htake] at hfront
  refine ⟨_, hfront, ?_, ?_⟩
  · rw [h.skip, List.length_append, skip_add]
  · rw [hfront.tokens, List.append_assoc] at htokens
    exact List.append_cancel_left htokens

end Past

/-- The cursors are at the same tokens, behind which others follow. -/
def Meets (σ : Span → Span → Prop) (x x' : List Token) (c c' : Cursor) : Prop :=
  ∃ us us' xs xs', c.rest = us ++ xs ∧ c'.rest = us' ++ xs' ∧ Twins σ us us' ∧
    xs.map Lexeme.token = x ∧ xs'.map Lexeme.token = x'

/-- All tokens before `x` have `ω`, but for semicolons. -/
def Solid (ω : Lexeme → Prop) (x : List Token) (c : Cursor) : Prop :=
  ∀ us xs, c.rest = us ++ xs → xs.map Lexeme.token = x → ∀ l ∈ us, l.token ≠ .punct .semi → ω l

/-- The tokens begin alike, or the second ones with none that has `P`. -/
def Ends (P : Token → Prop) (x x' : List Token) : Prop :=
  x.head? = x'.head? ∨ ∀ t ∈ x'.head?, ¬ P t

namespace Meets

theorem front (h : Meets σ x x' c c') : ∃ us, c.tokens = us ++ x ∧ c'.tokens = us ++ x' := by
  obtain ⟨us, us', xs, xs', hc, hc', htwins, rfl, rfl⟩ := h
  exact ⟨us.map Lexeme.token, by rw [tokens, hc, List.map_append],
    by rw [tokens, hc', List.map_append, htwins.tokens]⟩

theorem of_front (h : c.tokens = us ++ x) (h' : c'.tokens = us ++ x') :
    Meets (fun _ _ => True) x x' c c' := by
  obtain ⟨ls, xs, hc, rfl, rfl⟩ := List.map_eq_append_iff.1 h
  obtain ⟨ls', xs', hc', hls', rfl⟩ := List.map_eq_append_iff.1 h'
  exact ⟨ls, ls', xs, xs', hc, hc', .of_tokens hls', rfl, rfl⟩

theorem of_tokens (h : c.tokens = c'.tokens) : Meets (fun _ _ => True) [] [] c c' :=
  of_front (List.append_nil _).symm (by rw [List.append_nil, h])

theorem left (h : Meets σ x x' c c') : Meets (fun _ _ => True) x x c c := by
  obtain ⟨us, -, xs, -, hc, -, -, hx, -⟩ := h
  exact ⟨us, us, xs, xs, hc, hc, .of_tokens rfl, hx, hx⟩

/-- Before the last of the same tokens there is another. -/
theorem shorten (h : Meets σ x x' c c') (hlt : x.length < c.left) :
    ∃ t, Meets σ (t :: x) (t :: x') c c' := by
  obtain ⟨us, us', xs, xs', hc, hc', htwins, rfl, rfl⟩ := h
  have hleft : c.left = us.length + xs.length := by rw [Cursor.left, hc, List.length_append]
  rw [List.length_map] at hlt
  have hlength := htwins.length_eq
  rcases us.eq_nil_or_concat with rfl | ⟨us, l, rfl⟩
  · simp at hleft
    omega
  rcases us'.eq_nil_or_concat with rfl | ⟨us', l', rfl⟩
  · simp at hlength
  rw [List.concat_eq_append] at hc hc' htwins
  rw [List.concat_eq_append] at htwins
  rw [List.length_concat, List.length_concat, Nat.add_right_cancel_iff] at hlength
  have hinit := htwins.take us.length
  rw [List.take_left, ← hlength, List.take_left] at hinit
  have htokens := htwins.tokens
  rw [List.map_append, List.map_append, hinit.tokens] at htokens
  have htoken : l'.token = l.token := List.head_eq_of_cons_eq (List.append_cancel_left htokens)
  exact ⟨l.token, us, us', l :: xs, l' :: xs', by rw [hc, List.append_assoc]; rfl,
    by rw [hc', List.append_assoc]; rfl, hinit, rfl, by rw [List.map_cons, htoken]⟩

theorem token? (h : Meets σ x x' c c') (hlt : x.length < c.left) : c'.token? = c.token? := by
  obtain ⟨t, hm⟩ := h.shorten hlt
  obtain ⟨us, hus, hus'⟩ := hm.front
  rw [token?_eq, token?_eq, hus, hus', List.head?_append, List.head?_append]
  rfl

theorem token?_of_head? (h : Meets σ x x' c c') (hx : x.head? = x'.head?) :
    c'.token? = c.token? := by
  obtain ⟨us, hus, hus'⟩ := h.front
  rw [token?_eq, token?_eq, hus, hus', List.head?_append, List.head?_append, hx]

/-- The tokens at the cursors are the same, or reading ends here and the one at the
    second cursor does not go on. -/
theorem token?_of_ends {P : Token → Prop} (h : Meets σ x x' c c') (hx : Ends P x x') :
    c'.token? = c.token? ∨ c.left ≤ x.length ∧ ∀ t, P t → c'.token? ≠ some t := by
  rcases hx with hx | hx
  · exact .inl (h.token?_of_head? hx)
  · by_cases hlt : x.length < c.left
    · exact .inl (h.token? hlt)
    · refine .inr ⟨Nat.le_of_not_lt hlt, ?_⟩
      obtain ⟨us, hus, hus'⟩ := h.front
      have hlength := congrArg List.length hus
      rw [length_tokens, List.length_append] at hlength
      obtain rfl : us = [] := List.length_eq_zero_iff.1 (by omega)
      rw [token?_eq, hus']
      exact fun t ht htoken => hx t htoken ht

/-- The tokens at the cursors stand at places with `σ`. -/
theorem span (h : Meets σ x x' c c') (hlt : x.length < c.left) : σ c.span c'.span := by
  obtain ⟨us, us', xs, xs', hc, hc', htwins, rfl, rfl⟩ := h
  have hlength : c.left = us.length + xs.length := by rw [Cursor.left, hc, List.length_append]
  rw [List.length_map] at hlt
  have hfirst := htwins.stretch 0 1 Nat.one_ne_zero (by omega)
  cases us with
  | nil => simp at hlength; omega
  | cons l us =>
    cases us' with
    | nil => cases htwins.tokens
    | cons l' us' =>
      rw [Cursor.span, Cursor.span, hc, hc']
      exact hfirst

/-- Before the last of the same tokens, the second ones are the same too. -/
theorem second? (h : Meets σ x x' c c') (hx : x.head? = x'.head?) (hlt : x.length < c.left) :
    c'.second? = c.second? := by
  obtain ⟨us, hus, hus'⟩ := h.front
  cases us with
  | nil => simp [← length_tokens, hus] at hlt
  | cons u us =>
    rw [second?_eq, second?_eq, hus, hus', List.cons_append, List.cons_append, List.tail_cons,
      List.tail_cons, List.head?_append, List.head?_append, hx]

/-- What is read before `x` are tokens before `x`. -/
theorem prefix_of_le (hus : c.tokens = us ++ x) (hp : Past ts c d) (hx : x.length ≤ d.left) :
    ∃ mid, us = ts ++ mid := by
  rw [hp.tokens] at hus
  have hlength := congrArg List.length hus
  rw [List.length_append, List.length_append, length_tokens] at hlength
  obtain ⟨mid, hmid⟩ : ts <+: us :=
    List.prefix_of_prefix_length_le ⟨d.tokens, rfl⟩ ⟨x, hus.symm⟩ (by omega)
  exact ⟨mid, hmid.symm⟩

theorem past (h : Meets σ x x' c c') (hp : Past ts c d) (hp' : Past ts c' d')
    (hx : x.length ≤ d.left) : Meets σ x x' d d' := by
  have hleft := hp.left
  obtain ⟨us, us', xs, xs', hc, hc', htwins, rfl, rfl⟩ := h
  have hlength : c.left = us.length + xs.length := by rw [Cursor.left, hc, List.length_append]
  rw [List.length_map] at hx
  refine ⟨us.drop ts.length, us'.drop ts.length, xs, xs', ?_, ?_, htwins.drop _, rfl, rfl⟩
  · rw [hp.rest, hc, List.drop_append_of_le_length (by omega)]
  · rw [hp'.rest, hc', List.drop_append_of_le_length (by rw [htwins.length_eq]; omega)]

theorem advance (h : Meets σ x x' c c') (ht : c.token? = some t) (hlt : x.length < c.left) :
    Meets σ x x' c.advance c'.advance := by
  refine h.past (.advance ht) (.advance ((h.token? hlt).trans ht)) ?_
  rw [left_advance]
  omega

/-- The tokens of an array length end at the same place. -/
theorem lengthExtent? {n : Nat} (h : Meets σ x x' c c') (hx : x.head? = x'.head?)
    (hn : lengthExtent? 0 c.rest = some n) (hle : x.length ≤ c.left - n) :
    Tree.lengthExtent? 0 c'.rest = some n ∧ Twins σ (c.rest.take n) (c'.rest.take n) := by
  obtain ⟨us, us', xs, xs', hc, hc', htwins, rfl, rfl⟩ := h
  have hn_le := (shut_lengthExtent hn).1
  have hlength : c.left = us.length + xs.length := by rw [Cursor.left, hc, List.length_append]
  have hus_le : n ≤ us.length := by
    have : c.left = c.rest.length := rfl
    rw [List.length_map] at hle
    omega
  have hfront : c.rest.map Lexeme.token = us.map Lexeme.token ++ xs.map Lexeme.token := by
    rw [hc, List.map_append]
  have hfront' : c'.rest.map Lexeme.token = us.map Lexeme.token ++ xs'.map Lexeme.token := by
    rw [hc', List.map_append, htwins.tokens]
  refine ⟨lengthExtent?_congr hx hfront hfront' (by rwa [List.length_map]) hn, ?_⟩
  rw [hc, hc', List.take_append_of_le_length hus_le,
    List.take_append_of_le_length (by rwa [htwins.length_eq])]
  exact htwins.take n

/-- Looking ahead for a type behind brackets finds the same, if the brackets close in
    the same tokens. -/
theorem bracketThenType (h : Meets σ x x' c c') (hx : x.head? = x'.head?) {u : Token}
    (hp : Past (t :: u :: ts) c d) (hle : x.length ≤ d.left) (hu : u.opens = true)
    (hclose : depthAfter? 0 ts = none) :
    Tree.bracketThenType c'.rest.tail = Tree.bracketThenType c.rest.tail := by
  obtain ⟨front, v, back, rfl, hv, hfront⟩ := exists_closing hclose
  have hfound (b : Cursor) (y : List Token) (hb : b.tokens = t :: u :: (front ++ v :: back) ++ y) :
      Tree.bracketThenType b.rest.tail = (back ++ y).head?.any Token.startsType := by
    refine bracketThenType_of_closing front _ ?_ hu hfront hv
    rw [List.map_tail, ← Cursor.tokens, hb]
    simp
  obtain ⟨us, hus, hus'⟩ := h.front
  obtain ⟨mid, rfl⟩ := prefix_of_le hus hp hle
  rw [List.append_assoc] at hus hus'
  rw [hfound c _ hus, hfound c' _ hus']
  simp only [List.head?_append, hx]

end Meets

section

variable {ω : Lexeme → Prop}

theorem solid_any (x : List Token) (c : Cursor) : c.Solid (fun _ => True) x :=
  fun _ _ _ _ _ _ _ => trivial

theorem Solid.past (h : c.Solid ω x) (hp : Past ts c d) : d.Solid ω x := by
  intro us xs hd hxs l hl
  have hc : c.rest = (c.rest.take ts.length ++ us) ++ xs := by
    rw [List.append_assoc, ← hd, hp.rest, List.take_append_drop]
  exact h _ xs hc hxs l (List.mem_append_right _ hl)

/-- One token more counts as behind. -/
theorem Solid.cons (h : c.Solid ω x) : c.Solid ω (t :: x) := by
  intro us xs hc hxs l hl
  obtain ⟨m, xs, rfl, -, hxs⟩ := List.map_eq_cons_iff.1 hxs
  exact h (us ++ [m]) xs (by rw [hc, List.append_assoc]; rfl) hxs l (List.mem_append_left _ hl)

/-- The first token, if it is no semicolon and stands before `x`. -/
theorem Solid.head? (h : c.Solid ω x) (hm : Meets σ x x' c c') (hlt : x.length < c.left)
    (ht : c.token? = some t) (hsemi : t ≠ .punct .semi) : ∃ l ∈ c.rest.head?, ω l := by
  obtain ⟨l, hl, rfl⟩ := Option.map_eq_some_iff.1 ht
  obtain ⟨us, -, xs, -, hc, -, -, hx, -⟩ := hm
  have hlength : c.left = us.length + xs.length := by rw [Cursor.left, hc, List.length_append]
  rw [← hx, List.length_map] at hlt
  cases us with
  | nil =>
    rw [List.length_nil] at hlength
    omega
  | cons m us =>
    rw [hc] at hl
    cases hl
    refine ⟨l, by rw [hc]; rfl, h _ xs hc hx l List.mem_cons_self hsemi⟩

end

end Cursor

/-! ## What readers do at both -/

namespace Outcome

open Cursor

variable {σ : Span → Span → Prop} {α β γ δ : Type} {c c' d d' : Cursor}
  {x x' ts us : List Token} {t : Token} {n : Nat} {P Q S : List Token → Prop}
  {r : α → α → Prop} {q : β → β → Prop}

/-- At most so many tokens are left behind a value. -/
def Within (n : Nat) (o : Outcome α c) : Prop := ∀ a d m, o = .ok a d m → d.left ≤ n

namespace Within

theorem ok {a : α} {m : d.left < c.left} (h : d.left ≤ n) :
    (Outcome.ok a d m : Outcome α c).Within n := by
  rintro _ _ _ ⟨⟩
  exact h

theorem error {fault : Diagnostic} {k : d.left ≤ c.left} :
    (Outcome.error fault d k : Outcome α c).Within n := nofun

theorem lift {o : Outcome α d} {k : d.left ≤ c.left} (h : o.Within n) : (o.lift k).Within n := by
  cases o with
  | ok a e m => exact ok (h a e m rfl)
  | error fault e k => exact error

/-- What is read from a cursor takes something off it. -/
theorem of_lt {o : Outcome α d} (h : d.left ≤ n + 1) : o.Within n := by
  intro a e m _
  omega

theorem after {o : Outcome α d} {m : d.left < c.left} : (o.after m).Within d.left :=
  (of_lt (Nat.le_succ _)).lift

theorem andThen {o : Outcome α c} {k : (a : α) → (d : Cursor) → d.left < c.left → Outcome β c}
    (hk : ∀ a d m, o = .ok a d m → (k a d m).Within n) : (o.andThen k).Within n := by
  cases o with
  | ok a d m => exact hk a d m rfl
  | error fault e k => exact error

theorem map {o : Outcome α c} {k : α → Cursor → β} (h : o.Within n) : (o.map k).Within n :=
  andThen fun a d m ho => ok (h a d m ho)

end Within

/-! ## Reading alike -/

/-- For a value that comes of the first outcome by reading tokens before `x` comes of
    the second one that has `r` to it, of the same tokens, which have `P`. -/
def Echoes (x : List Token) (P : List Token → Prop) (r : α → α → Prop) (o : Outcome α c)
    (o' : Outcome α c') : Prop :=
  ∀ a d m, o = .ok a d m → x.length ≤ d.left →
    ∃ ts a' d' m', o' = .ok a' d' m' ∧ r a a' ∧ P ts ∧ Past ts c d ∧ Past ts c' d'

namespace Echoes

theorem ok {a a' : α} {m : d.left < c.left} {m' : d'.left < c'.left} (ha : r a a') (hP : P ts)
    (hp : Past ts c d) (hp' : Past ts c' d') :
    (Outcome.ok a d m).Echoes x P r (.ok a' d' m') := by
  rintro _ _ _ ⟨⟩ -
  exact ⟨ts, a', d', m', rfl, ha, hP, hp, hp'⟩

theorem error {fault : Diagnostic} {k : d.left ≤ c.left} {o' : Outcome α c'} :
    (Outcome.error fault d k : Outcome α c).Echoes x P r o' := nofun

theorem fails {what : String} {o' : Outcome α c'} :
    (c.fails what : Outcome α c).Echoes x P r o' := error

theorem mono {o : Outcome α c} {o' : Outcome α c'} {r' : α → α → Prop} (h : o.Echoes x P r o')
    (hP : ∀ ts, P ts → Q ts) (hr : ∀ a a', r a a' → r' a a') : o.Echoes x Q r' o' := by
  intro a d m ho hx
  obtain ⟨ts, a', d', m', ho', ha, hts, hp, hp'⟩ := h a d m ho hx
  exact ⟨ts, a', d', m', ho', hr a a' ha, hP ts hts, hp, hp'⟩

theorem imp {o : Outcome α c} {o' : Outcome α c'} (h : o.Echoes x P r o')
    (hP : ∀ ts, P ts → Q ts) : o.Echoes x Q r o' := h.mono hP fun _ _ => id

/-- Something is read, so that the cursor must stand before `x`. -/
theorem of_lt {o : Outcome α c} {o' : Outcome α c'} (h : x.length < c.left → o.Echoes x P r o') :
    o.Echoes x P r o' := fun a d m ho hx => h (Nat.lt_of_le_of_lt hx m) a d m ho hx

/-- A value would take tokens of `x`. -/
theorem of_short {o : Outcome α c} {o' : Outcome α c'}
    (h : ∀ a d m, o = .ok a d m → d.left < x.length) : o.Echoes x P r o' :=
  fun a d m ho hx => absurd hx (Nat.not_le_of_lt (h a d m ho))

/-- A value that is there is one before `x`. -/
theorem of_le {a : α} {m : d.left < c.left} {o' : Outcome α c'}
    (h : x.length ≤ d.left → (Outcome.ok a d m).Echoes x P r o') :
    (Outcome.ok a d m).Echoes x P r o' := by
  rintro _ _ _ ⟨⟩ hx
  exact h hx a d m rfl hx

/-- What is read behind some tokens. -/
theorem lift {o : Outcome α d} {o' : Outcome α d'} {k : d.left ≤ c.left} {k' : d'.left ≤ c'.left}
    (hm : Meets σ x x' c c') (hp : Past us c d) (hp' : x.length < d.left → Past us c' d')
    (h : Meets σ x x' d d' → o.Echoes x P r o') (hP : ∀ ts, P ts → Q (us ++ ts)) :
    (o.lift k).Echoes x Q r (o'.lift k') := by
  cases o with
  | error fault e k => exact error
  | ok a e m =>
    rintro _ _ _ ⟨⟩ hx
    have hlt := Nat.lt_of_le_of_lt hx m
    have hq := hp' hlt
    obtain ⟨ts, a', e', m', rfl, ha, hts, he, he'⟩ :=
      h (hm.past hp hq (Nat.le_of_lt hlt)) a e m rfl hx
    exact ⟨us ++ ts, a', e', _, rfl, ha, hP ts hts, hp.trans he, hq.trans he'⟩

theorem after {o : Outcome α d} {o' : Outcome α d'} {m : d.left < c.left} {m' : d'.left < c'.left}
    (hm : Meets σ x x' c c') (hp : Past us c d) (hp' : Past us c' d')
    (h : Meets σ x x' d d' → o.Echoes x P r o') (hP : ∀ ts, P ts → Q (us ++ ts)) :
    (o.after m).Echoes x Q r (o'.after m') := lift hm hp (fun _ => hp') h hP

/-- What is read behind a token. -/
theorem advance {o : Outcome α c.advance} {o' : Outcome α c'.advance}
    {k : c.advance.left ≤ c.left} {k' : c'.advance.left ≤ c'.left} (hm : Meets σ x x' c c')
    (ht : c.token? = some t) (h : Meets σ x x' c.advance c'.advance → o.Echoes x P r o')
    (hP : ∀ ts, P ts → Q (t :: ts)) : (o.lift k).Echoes x Q r (o'.lift k') :=
  lift hm (.advance ht)
    (fun hlt => .advance ((hm.token? (Nat.lt_of_lt_of_le hlt k)).trans ht)) h hP

theorem andThen {o : Outcome α c} {o' : Outcome α c'}
    {k : (a : α) → (d : Cursor) → d.left < c.left → Outcome β c}
    {k' : (a : α) → (d : Cursor) → d.left < c'.left → Outcome β c'} (hm : Meets σ x x' c c')
    (h : o.Echoes x P r o') (hw : ∀ a d m, (k a d m).Within d.left)
    (hk : ∀ ts a d m a' d' m', r a a' → P ts → Past ts c d → Past ts c' d' →
      Meets σ x x' d d' → (k a d m).Echoes x Q q (k' a' d' m')) :
    (o.andThen k).Echoes x Q q (o'.andThen k') := by
  cases o with
  | error fault e k => exact error
  | ok a d m =>
    intro b e m₁ hb hx
    have hd := Nat.le_trans hx (hw a d m b e m₁ hb)
    obtain ⟨ts, a', d', m', rfl, ha, hts, hp, hp'⟩ := h a d m rfl hd
    exact hk ts a d m a' d' m' ha hts hp hp' (hm.past hp hp' hd) b e m₁ hb hx

/-- Reading on.  Behind the first value there is more before `x`, so that it is followed
    by the same token at both. -/
theorem bindPast {o : Outcome α c} {o' : Outcome α c'}
    {k : (a : α) → (d : Cursor) → d.left < c.left → Outcome β d}
    {k' : (a : α) → (d : Cursor) → d.left < c'.left → Outcome β d} (hm : Meets σ x x' c c')
    (h : ∀ t, Meets σ (t :: x) (t :: x') c c' → o.Echoes (t :: x) P r o')
    (hk : ∀ ts a d m a' d' m', r a a' → P ts → Past ts c d → Past ts c' d' → Meets σ x x' d d' →
      (k a d m).Echoes x (fun us => S (ts ++ us)) q (k' a' d' m')) :
    (o.bind k).Echoes x S q (o'.bind k') := by
  cases o with
  | error fault e k => exact error
  | ok a d m =>
    intro b e m₁ hb hx
    obtain ⟨m₂, -⟩ := ok_of_lift (k := Nat.le_of_lt m) hb
    have hlt := Nat.lt_of_le_of_lt hx m₂
    obtain ⟨t, ht⟩ := hm.shorten (Nat.lt_trans hlt m)
    obtain ⟨ts, a', d', m', rfl, ha, hts, hp, hp'⟩ := h t ht a d m rfl hlt
    have hrest : ((k a d m).after m).Echoes x S q ((k' a' d' m').after m') :=
      after hm hp hp' (hk ts a d m a' d' m' ha hts hp hp') fun us => id
    exact hrest b e m₁ hb hx

theorem bind {o : Outcome α c} {o' : Outcome α c'}
    {k : (a : α) → (d : Cursor) → d.left < c.left → Outcome β d}
    {k' : (a : α) → (d : Cursor) → d.left < c'.left → Outcome β d} (hm : Meets σ x x' c c')
    (h : ∀ t, Meets σ (t :: x) (t :: x') c c' → o.Echoes (t :: x) P r o')
    (hk : ∀ a d m a' d' m', r a a' → Meets σ x x' d d' →
      (k a d m).Echoes x Q q (k' a' d' m'))
    (hS : ∀ ts us, P ts → Q us → S (ts ++ us)) :
    (o.bind k).Echoes x S q (o'.bind k') :=
  bindPast hm h fun ts a d m a' d' m' ha hts _ _ hd =>
    (hk a d m a' d' m' ha hd).imp fun us => hS ts us hts

/-- Reading on, where it does not matter what the tokens are like. -/
theorem bindAny {o : Outcome α c} {o' : Outcome α c'}
    {k : (a : α) → (d : Cursor) → d.left < c.left → Outcome β d}
    {k' : (a : α) → (d : Cursor) → d.left < c'.left → Outcome β d} (hm : Meets σ x x' c c')
    (h : ∀ t, Meets σ (t :: x) (t :: x') c c' → o.Echoes (t :: x) P r o')
    (hk : ∀ ts a d m a' d' m', r a a' → Past ts c d → Meets σ x x' d d' →
      (k a d m).Echoes x (fun _ => True) q (k' a' d' m')) :
    (o.bind k).Echoes x (fun _ => True) q (o'.bind k') :=
  bindPast hm h fun ts a d m a' d' m' ha _ hp _ hd => hk ts a d m a' d' m' ha hp hd

theorem map {o : Outcome α c} {o' : Outcome α c'} {k k' : α → Cursor → β} (hm : Meets σ x x' c c')
    (h : o.Echoes x P r o') (hk : ∀ a d a' d', r a a' → q (k a d) (k' a' d')) :
    (o.map k).Echoes x P q (o'.map k') :=
  h.andThen hm (fun _ _ _ => .ok (Nat.le_refl _)) fun _ a d _ a' d' _ ha hts hp hp' _ =>
    ok (hk a d a' d' ha) hts hp hp'

/-- A value, and more behind it where a token stands that `x'` does not begin with, unless
    `x` does. -/
theorem andMore {E : Token → Prop} {ω : Type} {o : Outcome α c} {o' : Outcome α c'}
    {more more' : (d : Cursor) → Outcome β d} {f f' : α → β → Cursor → ω} {g g' : α → Cursor → ω}
    {s : ω → ω → Prop} (hm : Meets σ x x' c c') (hx : Ends E x x') (ht : E t)
    (ho : o.Echoes x (Shut 0) r o')
    (hmore : ∀ e e' : Cursor, e.left < c.left → Meets σ x x' e e' →
      (more e).Echoes x Q q (more' e'))
    (hQ : ∀ ts, Q ts → Shut 0 (t :: ts))
    (hf : ∀ a a' b b' e e', r a a' → q b b' → s (f a b e) (f' a' b' e'))
    (hg : ∀ a a' d d', r a a' → s (g a d) (g' a' d')) :
    (o.andThen fun a d m => if d.token? = some t then
      (((more d.advance).lift d.advance_le).after m).map (f a) else .ok (g a d) d m).Echoes x
      (Shut 0) s (o'.andThen fun a d m => if d.token? = some t then
        (((more' d.advance).lift d.advance_le).after m).map (f' a) else .ok (g' a d) d m) := by
  refine ho.andThen hm (fun a d m => ?_) fun us a d m a' d' m' ha hus hp hp' hd => ?_
  · split
    · exact .map .after
    · exact .ok (Nat.le_refl _)
  · rcases hd.token?_of_ends hx with hnext | ⟨hle, hnext⟩
    · rw [hnext]
      split
      · next h =>
        exact .map hm (.after hm hp hp' (fun hd => .advance hd h
          (hmore _ _ (Nat.lt_of_le_of_lt d.advance_le m)) hQ)
          fun ts hts => hus.append hts) fun b e b' e' hb => hf a a' b b' e e' ha hb
      · exact .ok (hg a a' d d' ha) hus hp hp'
    · rw [if_neg (hnext _ ht)]
      split
      · -- more would take tokens of `x`
        refine .of_short fun b e m' hb => ?_
        obtain ⟨_, hb, -⟩ := ok_of_map hb
        obtain ⟨_, hb⟩ := ok_of_lift hb
        omega
      · exact .ok (hg a a' d d' ha) hus hp hp'

end Echoes

end Outcome

/-! ## Single tokens -/

namespace Cursor

open Outcome

variable {σ : Span → Span → Prop} {c c' : Cursor} {x x' : List Token}

theorem expect_echo (hm : Meets σ x x' c c') (t : Token) (what : String) :
    (c.expect t what).Echoes x (· = [t]) (fun _ _ => True) (c'.expect t what) := by
  refine .of_lt fun hlt => ?_
  unfold expect
  split
  · next h =>
    have h' := (hm.token? hlt).trans h
    rw [dif_pos h']
    exact .ok trivial rfl (.advance h) (.advance h')
  · exact .fails

theorem ident_echo (hm : Meets σ x x' c c') (what : String) :
    (c.ident what).Echoes x (∃ s, · = [.ident s]) (fun i i' => i'.text = i.text)
      (c'.ident what) := by
  refine .of_lt fun hlt => ?_
  unfold ident
  split
  · next s h =>
    have h' := (hm.token? hlt).trans h
    split
    · next s' hs =>
      rw [hs] at h'
      cases h'
      exact .ok rfl ⟨s, rfl⟩ (.advance h) (.advance hs)
    · next hn => exact absurd h' (hn s)
  · exact .fails

/-! ## Lists -/

section

variable {α β : Type} {S : ListShape α β} {item item' : (c : Cursor) → Outcome α c}
  {loop loop' : (c : Cursor) → Outcome β c} {ω : Lexeme → Prop} {r : α → α → Prop}
  {P Q : List Token → Prop}

/-- What the tokens of an item have and what those of a list do. -/
structure ListTokens (S : ListShape α β) (P Q : List Token → Prop) : Prop where
  close : Q [.punct S.close]
  sep : ∀ ts, Q ts → Q (.punct S.sep :: ts)
  item : ∀ ts us, P ts → Q us → Q (ts ++ us)

theorem ListTokens.any : ListTokens S (fun _ => True) (fun _ => True) :=
  ⟨trivial, fun _ => id, fun _ _ _ => id⟩

/-- Items leave no bracket open, and a list closes one. -/
theorem ListTokens.shut : ListTokens S (Shut 0) (Shut 1) :=
  ⟨shut_closing S.closes, fun _ => Shut.cons_plain S.sep_opens S.sep_closes, fun _ _ => Shut.append⟩

/-- What is read behind an item is read alike, if the other items are. -/
theorem behind_echo (hPQ : ListTokens S P Q) (hm : Meets σ x x' c c')
    (hloop : ∀ d d', d.left < c.left → Past [.punct S.sep] c d → Meets σ x x' d d' →
      (loop d).Echoes x Q (fun b b' => List.Forall₂ r (S.items b) (S.items b')) (loop' d'))
    {a a' : α} (ha : r a a') : (c.behind S loop a).Echoes x Q
      (fun b b' => List.Forall₂ r (S.items b) (S.items b')) (c'.behind S loop' a') := by
  refine .of_lt fun hlt => ?_
  have ht := hm.token? hlt
  by_cases hclose : c.token? = some (.punct S.close)
  · rw [behind_of_close hclose, behind_of_close (ht.trans hclose)]
    refine .ok ?_ hPQ.close (.advance hclose) (.advance (ht.trans hclose))
    rw [S.items_cons, S.items_nil, S.items_cons, S.items_nil]
    exact .cons ha .nil
  by_cases hsep : c.token? = some (.punct S.sep)
  · rw [behind_of_sep hsep, behind_of_sep (ht.trans hsep)]
    refine .map hm (.advance hm hsep (hloop _ _ (advance_lt hsep) (.advance hsep)) hPQ.sep) ?_
    intro b _ b' _ hb
    rw [S.items_cons, S.items_cons]
    exact .cons ha hb
  · rw [behind, dif_neg hclose, if_neg hsep]
    exact .fails

/-- A list is read alike, if its items are. -/
theorem ListLoop.echo (hloop : ListLoop S item loop) (hloop' : ListLoop S item' loop')
    (hPQ : ListTokens S P Q) (c c' : Cursor) (hm : Meets σ x x' c c') (hc : c.Solid ω x)
    (hitem : ∀ {y y'} d d', d.left ≤ c.left → Meets σ y y' d d' → d.Solid ω y →
      y.head? = y'.head? → (item d).Echoes y P r (item' d')) :
    (loop c).Echoes x Q (fun b b' => List.Forall₂ r (S.items b) (S.items b')) (loop' c') := by
  have hmore (d d') (hlt : d.left < c.left) (hm : Meets σ x x' d d') (hd : d.Solid ω x) :
      (loop d).Echoes x Q (fun b b' => List.Forall₂ r (S.items b) (S.items b')) (loop' d') :=
    hloop.echo hloop' hPQ d d' hm hd fun e e' hle =>
      hitem e e' (Nat.le_trans hle (Nat.le_of_lt hlt))
  refine .of_lt fun hlt => ?_
  have ht := hm.token? hlt
  obtain ⟨t, hc_token⟩ := exists_token?_of_left_pos (Nat.zero_lt_of_lt hlt)
  by_cases hclose : t = .punct S.close
  · subst hclose
    rw [hloop.at_close hc_token, hloop'.at_close (ht.trans hc_token)]
    refine .ok ?_ hPQ.close (.advance hc_token) (.advance (ht.trans hc_token))
    rw [S.items_nil, S.items_nil]
    exact .nil
  by_cases hsemi : S.sep = .semi ∧ t = .punct S.sep
  · obtain ⟨hsep, rfl⟩ := hsemi
    rw [hloop.at_semi hsep hc_token, hloop'.at_semi hsep (ht.trans hc_token)]
    exact .advance hm hc_token
      (fun hd => hmore _ _ (advance_lt hc_token) hd (hc.past (.advance hc_token))) hPQ.sep
  · rw [hloop.at_item hc_token hclose (not_and.1 hsemi),
      hloop'.at_item (ht.trans hc_token) hclose (not_and.1 hsemi)]
    refine .bindPast hm (fun _ hm => hitem c c' (Nat.le_refl _) hm hc.cons rfl)
      fun ts a d m a' d' _ ha hts hp _ hd => ?_
    exact (behind_echo hPQ hd (fun e e' hlt hq he =>
      hmore e e' (Nat.lt_trans hlt m) he (hc.past (hp.trans hq))) ha).imp fun us => hPQ.item ts us hts
termination_by c.left

end

end Cursor

end GoDecls.Tree

/-
  Rows of pairs `key:"value"`.

  * `Delimited p w`: the text `w` is a key, a colon and a text between double quotes, in
    which a quote stands only behind a backslash; `p` are the key and the literal;
  * `Written p w`: the text `w` is the pair of a key and a tag, whose text is spelled in
    any of the ways there are;
  * `Row R as cs`: the text `cs` is a row of entries, with spaces before, between and
    behind them;
  * `unread cs` is what is left of a text when scanning ends;
  * `read_row_append`: of a row of delimited pairs before any text the pairs are read,
    and then the text; what is read of any text is such a row (`exists_row`);
  * `scan_of_written` and `scan_append`: what is written is read back, and texts that
    are read to the end can be read one by one.
-/
import GoDecls.Proofs.Literal.Quoted
import GoDecls.Proofs.Tag.Insertion
import GoDecls.Tag.Scan

namespace GoDecls.TagText

open Literal

variable {cs rest body w : List Char} {p : String × String} {ps : List (String × String)}
  {n : Nat} {key : String}

/-! ## Pairs -/

/-- The text is a key: there is something in it, but nothing up to the space, no colon,
    no double quote and no DEL. -/
structure IsKey (key : String) : Prop where
  ne : key ≠ ""
  chars : ∀ c ∈ key.toList, ' ' < c ∧ c ∉ [':', '"', '\x7f']

/-- What may stand between the quotes of a value: a backslash takes the next character
    with it, and no other character is a double quote. -/
inductive Body : List Char → Prop
  | nil : Body []
  | plain {c : Char} {cs : List Char} (hc : c ∉ ['"', '\\']) (h : Body cs) : Body (c :: cs)
  | escape (c : Char) {cs : List Char} (h : Body cs) : Body ('\\' :: c :: cs)

/-- The text is a key and the literal behind it. -/
inductive Delimited : String × String → List Char → Prop
  | intro {key : String} {body : List Char} (hkey : IsKey key) (hbody : Body body) :
    Delimited (key, String.ofList ('"' :: (body ++ ['"'])))
      (key.toList ++ ':' :: '"' :: (body ++ ['"']))

/-- The text is a key and, between double quotes, its tag, each character of which is
    spelled in a way of its own. -/
inductive Written : String × Tag → List Char → Prop
  | intro {key : String} {tag : Tag} {ws : List (List Char)} (hkey : IsKey key)
    (h : List.Forall₂ Spelling tag.text.toList ws) :
    Written (key, tag) (key.toList ++ ':' :: '"' :: (ws.flatten ++ ['"']))

/-- The text is a row of entries, with any number of spaces before, between and behind
    them. -/
inductive Row {α : Type} (R : α → List Char → Prop) : List α → List Char → Prop
  | nil (n : Nat) : Row R [] (List.replicate n ' ')
  | cons (n : Nat) {a : α} {as : List α} {w cs : List Char} (h : R a w) (hrest : Row R as cs) :
    Row R (a :: as) (List.replicate n ' ' ++ (w ++ cs))

/-- What is left of the text when scanning ends. -/
def unread (cs : List Char) : List Char :=
  match _h : cs.dropWhile (· = ' ') with
  | [] => []
  | c :: rest =>
    match pair? (c :: rest) with
    | none => c :: rest
    | some (_, n) => unread (rest.drop (n - 1))
termination_by cs.length
decreasing_by
  have h := (List.dropWhile_suffix (l := cs) (· = ' ')).length_le
  simp only [_h, List.length_cons] at h
  simp only [List.length_drop]
  omega

/-! ## Values -/

theorem valueExtent_append (h : Body body) :
    valueExtent (body ++ '"' :: rest) = some (body.length + 1) := by
  induction h with
  | nil => rfl
  | @plain c cs hc _ ih =>
    simp only [List.mem_cons, List.not_mem_nil, or_false, not_or] at hc
    rw [List.cons_append, valueExtent, if_neg hc.1, ih]
    · rfl
    · exact fun h => absurd h hc.2
    · exact fun _ _ h => absurd h hc.2
  | @escape c cs _ ih =>
    rw [List.cons_append, List.cons_append, valueExtent, ih]
    rfl

theorem body_of_valueExtent (h : valueExtent cs = some n) :
    ∃ body rest, cs = body ++ '"' :: rest ∧ n = body.length + 1 ∧ Body body := by
  fun_induction valueExtent cs generalizing n with
  | case1 => cases h
  | case2 => cases h
  | case3 c cs ih =>
    obtain ⟨m, hm, rfl⟩ := Option.map_eq_some_iff.1 h
    obtain ⟨body, rest, rfl, rfl, hbody⟩ := ih hm
    exact ⟨'\\' :: c :: body, rest, rfl, rfl, .escape c hbody⟩
  | case4 cs =>
    cases h
    exact ⟨[], cs, rfl, rfl, .nil⟩
  | case5 c cs hend hescape hc ih =>
    have hslash : c ≠ '\\' := by
      rintro rfl
      cases cs with
      | nil => exact hend rfl rfl
      | cons d ds => exact hescape d ds rfl rfl
    obtain ⟨m, hm, rfl⟩ := Option.map_eq_some_iff.1 h
    obtain ⟨body, rest, rfl, rfl, hbody⟩ := ih hm
    refine ⟨c :: body, rest, rfl, rfl, .plain ?_ hbody⟩
    simp only [List.mem_cons, List.not_mem_nil, or_false, not_or]
    exact ⟨hc, hslash⟩

theorem Body.append {cs' : List Char} (h : Body cs) (h' : Body cs') : Body (cs ++ cs') := by
  induction h with
  | nil => exact h'
  | plain hc _ ih => exact .plain hc ih
  | escape c _ ih => exact .escape c ih

theorem body_of_forall (h : ∀ c ∈ cs, c ∉ ['"', '\\']) : Body cs := by
  induction cs with
  | nil => exact .nil
  | cons c cs ih =>
    obtain ⟨hc, hcs⟩ := List.forall_mem_cons.1 h
    exact .plain hc (ih hcs)

theorem plain_of_numeral {base : Nat} (hbase : base ∈ bases) (h : Numeral base cs n) :
    ∀ c ∈ cs, c ∉ ['"', '\\'] := by
  have hall : bases.all fun base => (digitsOf base).all (· ∉ ['"', '\\']) := by decide
  intro c hc
  have hdigits := List.all_eq_true.1 hall base hbase
  exact of_decide_eq_true (List.all_eq_true.1 hdigits c (h.digits c hc))

/-- What stands for a part of a text ends where it is taken to end in the search for the
    closing quote, which knows backslashes, but not escapes. -/
theorem body_of_item {part : Part} (h : Item (Numeral 16) w part) : Body w := by
  cases h with
  | plain hc =>
    simp only [List.mem_cons, not_or] at hc
    exact .plain (by simp [hc.1, hc.2.1]) .nil
  | simple _ => exact .escape _ .nil
  | hexByte _ h => exact .escape _ (body_of_forall (plain_of_numeral (by decide) h))
  | @octalByte ds b hlen h =>
    obtain ⟨d, ds, rfl⟩ := List.exists_cons_of_length_eq_add_one hlen
    have hplain := plain_of_numeral (by decide) h
    exact .escape d (body_of_forall (List.forall_mem_cons.1 hplain).2)
  | short _ h => exact .escape _ (body_of_forall (plain_of_numeral (by decide) h))
  | long _ h => exact .escape _ (body_of_forall (plain_of_numeral (by decide) h))

theorem body_of_spellings {ws : List (List Char)} (h : List.Forall₂ Spelling cs ws) :
    Body ws.flatten := by
  obtain ⟨vs, ps, hvs, hitems, -⟩ := items_of_spellings h
  rw [hvs]
  clear hvs
  induction hitems with
  | nil => exact .nil
  | cons h _ ih => exact (body_of_item h).append ih

/-! ## The pair at the front -/

theorem isKeyChar_iff {c : Char} : isKeyChar c = true ↔ ' ' < c ∧ c ∉ [':', '"', '\x7f'] := by
  simp [isKeyChar, and_assoc]

theorem takeWhile_key (hkey : IsKey key) :
    (key.toList ++ ':' :: rest).takeWhile isKeyChar = key.toList := by
  rw [List.takeWhile_append_of_pos fun c hc => isKeyChar_iff.2 (hkey.chars c hc),
    List.takeWhile_cons_of_neg (by decide), List.append_nil]

theorem take_value (body rest : List Char) :
    (body ++ '"' :: rest).take (body.length + 1) = body ++ ['"'] := by
  rw [List.append_cons]
  exact List.take_left' (by simp)

theorem pair?_append (h : Delimited p w) : pair? (w ++ rest) = some (p, w.length) := by
  cases h with
  | @intro key body hkey hbody =>
    have hne : ¬ key.toList.isEmpty := fun h =>
      hkey.ne (String.toList_eq_nil_iff.1 (List.isEmpty_iff.1 h))
    have hassoc : key.toList ++ ':' :: '"' :: (body ++ ['"']) ++ rest =
        key.toList ++ ':' :: '"' :: (body ++ '"' :: rest) := by simp
    have hlength : key.toList.length + 2 + (body.length + 1) =
        (key.toList ++ ':' :: '"' :: (body ++ ['"'])).length := by simp; omega
    rw [hassoc, pair?, takeWhile_key hkey, List.drop_left]
    refine (if_neg hne).trans ?_
    rw [valueExtent_append hbody, Option.map_some, take_value, hlength, String.ofList_toList]

theorem delimited_of_pair? (h : pair? cs = some (p, n)) :
    ∃ w rest, cs = w ++ rest ∧ n = w.length ∧ Delimited p w := by
  rw [pair?] at h
  split at h
  · next tail hdrop =>
    split at h
    · cases h
    · next hne =>
      obtain ⟨m, hm, hp⟩ := Option.map_eq_some_iff.1 h
      obtain ⟨rfl, rfl⟩ := Prod.mk.inj hp
      obtain ⟨body, rest, rfl, rfl, hbody⟩ := body_of_valueExtent hm
      have hcs : cs = cs.takeWhile isKeyChar ++ ':' :: '"' :: (body ++ '"' :: rest) := by
        rw [← hdrop]
        exact (List.prefix_iff_eq_append.1 (List.takeWhile_prefix _)).symm
      have hchars : ∀ c ∈ cs.takeWhile isKeyChar, isKeyChar c = true := fun c hc =>
        List.mem_takeWhile_imp hc
      obtain ⟨key, hkey⟩ : ∃ key : String, cs.takeWhile isKeyChar = key.toList :=
        ⟨String.ofList (cs.takeWhile isKeyChar), String.toList_ofList.symm⟩
      rw [hkey] at hcs hchars hne
      have hvalid : IsKey key := by
        refine ⟨?_, fun c hc => isKeyChar_iff.1 (hchars c hc)⟩
        rintro rfl
        exact hne rfl
      refine ⟨key.toList ++ ':' :: '"' :: (body ++ ['"']), rest, by rw [hcs]; simp, ?_, ?_⟩
      · rw [hkey]
        simp
        omega
      · rw [take_value, hkey, String.ofList_toList]
        exact .intro hvalid hbody
  · cases h

theorem Delimited.length_pos (h : Delimited p w) : 0 < w.length := by
  cases h
  simp

/-! ## Rows -/

theorem dropWhile_spaces (n : Nat) (cs : List Char) :
    (List.replicate n ' ' ++ cs).dropWhile (· = ' ') = cs.dropWhile (· = ' ') :=
  List.dropWhile_append_of_pos fun c hc => by simp [List.eq_of_mem_replicate hc]

/-- The text begins with spaces. -/
theorem exists_spaces (cs : List Char) :
    ∃ n, cs = List.replicate n ' ' ++ cs.dropWhile (· = ' ') := by
  refine ⟨(cs.takeWhile (· = ' ')).length, ?_⟩
  have hspaces : cs.takeWhile (· = ' ') = List.replicate (cs.takeWhile (· = ' ')).length ' ' :=
    List.eq_replicate_of_mem fun c hc => by simpa using List.mem_takeWhile_imp hc
  rw [← hspaces, List.takeWhile_append_dropWhile]

/-- Behind spaces, a pair is found where it begins. -/
theorem Delimited.front (h : Delimited p w) (n : Nat) (rest : List Char) :
    ∃ c cs, (List.replicate n ' ' ++ (w ++ rest)).dropWhile (· = ' ') = c :: cs ∧
      pair? (c :: cs) = some (p, w.length) ∧ cs.drop (w.length - 1) = rest := by
  have hpair : pair? (w ++ rest) = some (p, w.length) := pair?_append h
  cases h with
  | @intro key body hkey _ =>
    obtain ⟨c, ds, hds⟩ :=
      List.exists_cons_of_ne_nil fun h => hkey.ne (String.toList_eq_nil_iff.1 h)
    have hc : c ≠ ' ' := by
      rintro rfl
      exact absurd (hkey.chars ' ' (hds ▸ List.mem_cons_self)).1 (by decide)
    rw [hds] at hpair ⊢
    refine ⟨c, ds ++ ':' :: '"' :: (body ++ ['"']) ++ rest, ?_, hpair, ?_⟩
    · rw [dropWhile_spaces]
      exact List.dropWhile_cons_of_neg (by simpa using hc)
    · exact List.drop_left

theorem pairs_eq (cs : List Char) : pairs cs =
    match cs.dropWhile (· = ' ') with
    | [] => []
    | c :: rest =>
      match pair? (c :: rest) with
      | none => []
      | some (p, n) => p :: pairs (rest.drop (n - 1)) := by
  rw [pairs]
  split
  · next hdrop => simp only [hdrop]
  · next hdrop =>
    split
    · next hpair => simp only [hdrop, hpair]
    · next hpair => simp only [hdrop, hpair]

theorem unread_eq (cs : List Char) : unread cs =
    match cs.dropWhile (· = ' ') with
    | [] => []
    | c :: rest =>
      match pair? (c :: rest) with
      | none => c :: rest
      | some (_, n) => unread (rest.drop (n - 1)) := by
  rw [unread]
  split
  · next hdrop => simp only [hdrop]
  · next hdrop =>
    split
    · next hpair => simp only [hdrop, hpair]
    · next hpair => simp only [hdrop, hpair]

/-- Reading ends where no pair is. -/
theorem read_of_none {c : Char} (hdrop : cs.dropWhile (· = ' ') = c :: rest)
    (hnone : pair? (c :: rest) = none) : pairs cs = [] ∧ unread cs = c :: rest := by
  rw [pairs_eq, unread_eq, hdrop]
  simp only [hnone, and_self]

theorem read_spaces (n : Nat) (cs : List Char) :
    pairs (List.replicate n ' ' ++ cs) = pairs cs ∧
      unread (List.replicate n ' ' ++ cs) = unread cs := by
  rw [pairs_eq, unread_eq, dropWhile_spaces, ← pairs_eq, ← unread_eq]
  exact ⟨rfl, rfl⟩

theorem read_delimited (h : Delimited p w) (n : Nat) (rest : List Char) :
    pairs (List.replicate n ' ' ++ (w ++ rest)) = p :: pairs rest ∧
      unread (List.replicate n ' ' ++ (w ++ rest)) = unread rest := by
  obtain ⟨c, cs, hdrop, hpair, hrest⟩ := h.front n rest
  rw [pairs_eq, unread_eq, hdrop]
  simp only [hpair, hrest, and_self]

/-- Of a row the pairs are read, and then what follows. -/
theorem read_row_append (h : Row Delimited ps cs) (rest : List Char) :
    pairs (cs ++ rest) = ps ++ pairs rest ∧ unread (cs ++ rest) = unread rest := by
  induction h with
  | nil n => exact read_spaces n rest
  | @cons n p ps w cs h _ ih =>
    obtain ⟨hpairs, hunread⟩ := read_delimited h n (cs ++ rest)
    rw [List.append_assoc, List.append_assoc, hpairs, hunread, ih.1, ih.2]
    exact ⟨rfl, rfl⟩

theorem pairs_nil : pairs [] = [] := by rw [pairs]; rfl

theorem unread_nil : unread [] = [] := by rw [unread]; rfl

/-- **What is read of a text is a row of pairs**, behind which stands what is left. -/
theorem exists_row (cs : List Char) :
    ∃ front, cs = front ++ unread cs ∧ Row Delimited (pairs cs) front := by
  obtain ⟨n, hspaces⟩ := exists_spaces cs
  cases hdrop : cs.dropWhile (· = ' ') with
  | nil =>
    rw [hdrop, List.append_nil] at hspaces
    obtain ⟨hpairs, hunread⟩ := read_spaces n []
    rw [List.append_nil, ← hspaces] at hpairs hunread
    rw [hpairs, hunread, pairs_nil, unread_nil]
    exact ⟨cs, (List.append_nil cs).symm, hspaces ▸ .nil n⟩
  | cons c tail =>
    rw [hdrop] at hspaces
    cases hpair : pair? (c :: tail) with
    | none =>
      obtain ⟨hpairs, hunread⟩ := read_of_none hdrop hpair
      rw [hpairs, hunread]
      exact ⟨_, hspaces, .nil n⟩
    | some q =>
      obtain ⟨p, k⟩ := q
      obtain ⟨w, rest, hw, -, hp⟩ := delimited_of_pair? hpair
      rw [hw] at hspaces
      have hlt : rest.length < cs.length := by
        have := congrArg List.length hspaces
        have := hp.length_pos
        simp at *
        omega
      obtain ⟨front, hrest, hrow⟩ := exists_row rest
      obtain ⟨hpairs, hunread⟩ := read_delimited hp n rest
      rw [hspaces, hpairs, hunread]
      refine ⟨List.replicate n ' ' ++ (w ++ front), ?_, .cons n hp hrow⟩
      rw [List.append_assoc, List.append_assoc, ← hrest]
termination_by cs.length

/-! ## Tags -/

theorem pairs_row (h : Row Delimited ps cs) : pairs cs = ps := by
  have happend := (read_row_append h []).1
  rwa [List.append_nil, pairs_nil, List.append_nil] at happend

theorem unread_eq_nil_iff : unread cs = [] ↔ ∃ ps, Row Delimited ps cs := by
  constructor
  · intro h
    obtain ⟨front, hcs, hrow⟩ := exists_row cs
    rw [h, List.append_nil] at hcs
    exact ⟨pairs cs, hcs ▸ hrow⟩
  · rintro ⟨ps, h⟩
    have happend := (read_row_append h []).2
    rwa [List.append_nil, unread_nil] at happend

/-- What follows a text changes nothing before the place where scanning ended. -/
theorem pairs_append (cs rest : List Char) :
    pairs (cs ++ rest) = pairs cs ++ pairs (unread cs ++ rest) := by
  obtain ⟨front, hcs, hrow⟩ := exists_row cs
  rw [← (read_row_append hrow _).1, ← List.append_assoc, ← hcs]

/-- A written pair is delimited, and its literal gives back the tag. -/
theorem Written.exists_delimited {q : String × Tag} (h : Written q w) :
    ∃ p, Delimited p w ∧ decode? p = some q := by
  cases h with
  | @intro key tag ws hkey h =>
    refine ⟨_, .intro hkey (body_of_spellings h), ?_⟩
    rw [decode?, unquote_of_spellings String.toList_ofList h, String.ofList_toList]

theorem Row.exists_delimited {qs : List (String × Tag)} (h : Row Written qs cs) :
    ∃ ps, Row Delimited ps cs ∧ ps.filterMap decode? = qs := by
  induction h with
  | nil n => exact ⟨[], .nil n, rfl⟩
  | cons n h _ ih =>
    obtain ⟨p, hp, hdecode⟩ := h.exists_delimited
    obtain ⟨ps, hps, rfl⟩ := ih
    exact ⟨p :: ps, .cons n hp hps, List.filterMap_cons_some hdecode⟩

/-- **What is written is read back.**  The pairs of a row are inserted in turn, so that
    each key stands in the set where it came first, over the tag that came last. -/
theorem scan_of_written {qs : List (String × Tag)} {text : String}
    (h : Row Written qs text.toList) :
    scan text = .ofList qs ∧ (scan text).keys = (qs.map Prod.fst).eraseDups ∧
      ∀ key, (scan text).get? key = Tags.lastUnder? qs key := by
  obtain ⟨ps, hrow, hdecode⟩ := h.exists_delimited
  have hscan : scan text = .ofList qs := by
    rw [scan, tagList, pairs_row hrow, hdecode]
  rw [hscan]
  exact ⟨rfl, Tags.keys_ofList qs, Tags.get?_ofList qs⟩

/-- A repeated key, a character as the bytes of its encoding behind backslashes, no space
    between two pairs, and a backslash before a quote. -/
theorem scan_of_written_twice :
    let text := "a:\"\\303\\xA9\"b:\"\" a:\"\\\"é\" "
    let qs : List (String × Tag) := [("a", ⟨"é"⟩), ("b", ⟨""⟩), ("a", ⟨"\"é"⟩)]
    Row Written qs text.toList ∧ (scan text).entries = [("a", ⟨"\"é"⟩), ("b", ⟨""⟩)] ∧
      scan text = .ofList qs ∧ (scan text).keys = (qs.map Prod.fst).eraseDups ∧
      ∀ key, (scan text).get? key = Tags.lastUnder? qs key := by
  intro text qs
  have ha : IsKey "a" := ⟨by decide, by decide⟩
  have hb : IsKey "b" := ⟨by decide, by decide⟩
  have hbytes : Spelling 'é' ["\\303".toList, "\\xA9".toList].flatten :=
    .bytes (.cons (.octalByte rfl ⟨by decide, by decide, by decide⟩)
      (.cons (.hexByte rfl ⟨by decide, by decide, by decide⟩) .nil))
  have hquote : Spelling '"' "\\\"".toList :=
    .item (.simple (show ('"', '"') ∈ simpleEscapes by decide))
  have hplain : Spelling 'é' ['é'] := .item (.plain (by decide))
  have hfirst : Written ("a", ⟨"é"⟩) "a:\"\\303\\xA9\"".toList :=
    @Written.intro "a" ⟨"é"⟩ _ ha (.cons hbytes .nil)
  have hempty : Written ("b", ⟨""⟩) "b:\"\"".toList := @Written.intro "b" ⟨""⟩ _ hb .nil
  have hlast : Written ("a", ⟨"\"é"⟩) "a:\"\\\"é\"".toList :=
    @Written.intro "a" ⟨"\"é"⟩ _ ha (.cons hquote (.cons hplain .nil))
  have htext : text.toList = "a:\"\\303\\xA9\"".toList ++ ("b:\"\"".toList ++
      (' ' :: ("a:\"\\\"é\"".toList ++ [' ']))) := by decide +kernel
  have hrow : Row Written qs text.toList :=
    htext ▸ .cons 0 hfirst (.cons 0 hempty (.cons 1 hlast (.nil 1)))
  exact ⟨hrow, by decide +kernel, scan_of_written hrow⟩

/-- **Texts can be scanned one by one.**  If a text is read to its end, which is to say
    that it is a row of delimited pairs, then what another text behind it adds are the
    tags of that text.  Of any text, what is read of it stays when more follows. -/
theorem scan_append (t₁ t₂ : String) :
    (unread t₁.toList = [] ↔ ∃ ps, Row Delimited ps t₁.toList) ∧
    (unread t₁.toList = [] →
      scan (t₁ ++ t₂) = (scan t₁).extend (scan t₂).entries ∧
      (scan (t₁ ++ t₂)).keys = ((scan t₁).keys ++ (scan t₂).keys).eraseDups ∧
      ∀ key, (scan (t₁ ++ t₂)).get? key = ((scan t₂).get? key).or ((scan t₁).get? key)) ∧
    pairs t₁.toList <+: pairs (t₁ ++ t₂).toList ∧ tagList t₁ <+: tagList (t₁ ++ t₂) := by
  have hpairs := pairs_append t₁.toList t₂.toList
  rw [← String.toList_append] at hpairs
  have hprefix : pairs t₁.toList <+: pairs (t₁ ++ t₂).toList := ⟨_, hpairs.symm⟩
  refine ⟨unread_eq_nil_iff, fun h => ?_, hprefix, hprefix.filterMap decode?⟩
  have hscan : scan (t₁ ++ t₂) = (scan t₁).extend (scan t₂).entries := by
    rw [h, List.nil_append] at hpairs
    rw [scan, scan, scan, Tags.extend_entries_ofList, tagList, hpairs, List.filterMap_append]
    exact Tags.extend_append _ _ _
  rw [hscan]
  refine ⟨rfl, Tags.keys_extend _ _, fun key => ?_⟩
  rw [Tags.get?_extend, Tags.lastUnder?_entries]

/-- A pair whose value does not unquote is passed over, and a key that comes again in the
    second text keeps its place. -/
theorem scan_append_repeated :
    let t₁ := "a:\"1\" b:\"\\q\" "
    let t₂ := "c:\"2\" a:\"3\" d"
    unread t₁.toList = [] ∧ (scan (t₁ ++ t₂)).entries = [("a", ⟨"3"⟩), ("c", ⟨"2"⟩)] ∧
      scan (t₁ ++ t₂) = (scan t₁).extend (scan t₂).entries := by
  intro t₁ t₂
  have hend : unread t₁.toList = [] := by decide +kernel
  exact ⟨hend, by decide +kernel, ((scan_append t₁ t₂).2.1 hend).1⟩

end GoDecls.TagText

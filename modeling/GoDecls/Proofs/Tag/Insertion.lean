/-
  What a set of tags holds after insertions.

  * `Tags.keys` are the keys in order, `lastUnder? ps key` is the tag of the last of the
    pairs with the key;
  * `keys_extend` and `get?_extend`: each key stands where it came first, over the tag
    that came last;
  * `ext_get?`: sets with the same keys in the same order and the same tag under each
    are equal;
  * `extend_entries_ofList`: to insert the set of some pairs is to insert the pairs.
-/
import Mathlib.Data.List.Basic
import Mathlib.Data.List.Induction
import GoDecls.Tag.Basic

namespace GoDecls.Tags

variable {ts us : Tags} {key : String}

/-- The keys of the set, in order. -/
def keys (ts : Tags) : List String := ts.entries.map Prod.fst

/-- The tag of the last pair with the key. -/
def lastUnder? (ps : List (String × Tag)) (key : String) : Option Tag :=
  (ps.reverse.find? (·.1 = key)).map Prod.snd

/-! ## A set by its keys -/

theorem get?_of_mem {e : String × Tag} (he : e ∈ ts.entries) : ts.get? e.1 = some e.2 := by
  obtain ⟨es, hes⟩ := ts
  rw [get?]
  induction es with
  | nil => cases he
  | cons d es ih =>
    obtain ⟨hd, hes⟩ := List.nodup_cons.1 hes
    rcases List.mem_cons.1 he with rfl | he
    · simp
    · have hne : d.1 ≠ e.1 := fun h => hd (h ▸ List.mem_map_of_mem he)
      rw [List.find?_cons_of_neg (by simpa using hne)]
      exact ih hes he

/-- The entries are the keys with the tags under them. -/
theorem entries_eq_filterMap (ts : Tags) :
    ts.entries = ts.keys.filterMap fun key => (ts.get? key).map (key, ·) := by
  have h : ∀ e ∈ ts.entries,
      ((fun key => (ts.get? key).map (key, ·)) ∘ Prod.fst) e = some e := fun e he => by
    rw [Function.comp_apply, get?_of_mem he]
    rfl
  rw [keys, List.filterMap_map, List.filterMap_congr h, List.filterMap_some]

theorem ext_get? (hkeys : ts.keys = us.keys) (hget : ∀ key, ts.get? key = us.get? key) :
    ts = us := by
  have hentries : ts.entries = us.entries := by
    rw [entries_eq_filterMap, entries_eq_filterMap us, hkeys]
    simp only [hget]
  obtain ⟨es, hes⟩ := ts
  obtain ⟨fs, hfs⟩ := us
  cases hentries
  rfl

/-- No key comes twice in a set, so that the last tag under a key is the only one. -/
theorem lastUnder?_entries (ts : Tags) (key : String) :
    lastUnder? ts.entries key = ts.get? key := by
  rw [lastUnder?]
  cases h : ts.entries.reverse.find? (·.1 = key) with
  | none =>
    have hnone : ts.entries.find? (·.1 = key) = none :=
      List.find?_eq_none.2 fun e he => List.find?_eq_none.1 h e (List.mem_reverse.2 he)
    rw [get?, hnone]
  | some e =>
    obtain rfl : e.1 = key := by simpa using List.find?_some h
    exact (get?_of_mem (List.mem_reverse.1 (List.mem_of_find?_eq_some h))).symm

/-! ## Lists without repetitions -/

theorem eraseDups_of_nodup {as : List String} (h : as.Nodup) : as.eraseDups = as := by
  induction as with
  | nil => rfl
  | cons a as ih =>
    obtain ⟨ha, has⟩ := List.nodup_cons.1 h
    have hfilter : as.filter (fun b => !b == a) = as :=
      List.filter_eq_self.2 fun b hb => by simpa using fun hab : b = a => ha (hab ▸ hb)
    rw [List.eraseDups_cons, hfilter, ih has]

theorem eraseDups_concat (as : List String) (a : String) :
    (as ++ [a]).eraseDups = if a ∈ as.eraseDups then as.eraseDups else as.eraseDups ++ [a] := by
  rw [List.eraseDups_append]
  have hone : [a].eraseDups = [a] := eraseDups_of_nodup (by simp)
  by_cases h : a ∈ as <;> simp [List.removeAll, h, hone]

/-! ## Insertion -/

theorem keys_insert (ts : Tags) (key : String) (tag : Tag) :
    (ts.insert key tag).keys = if key ∈ ts.keys then ts.keys else ts.keys ++ [key] :=
  keys_put key tag ts.entries

theorem get?_insert (ts : Tags) (key k : String) (tag : Tag) :
    (ts.insert key tag).get? k = if key = k then some tag else ts.get? k := by
  split
  · next h => rw [← h, get?_insert_self]
  · next h => exact get?_insert_of_ne ts tag (Ne.symm h)

theorem extend_append (ts : Tags) (ps qs : List (String × Tag)) :
    ts.extend (ps ++ qs) = (ts.extend ps).extend qs :=
  List.foldl_append

theorem extend_concat (ts : Tags) (ps : List (String × Tag)) (p : String × Tag) :
    ts.extend (ps ++ [p]) = (ts.extend ps).insert p.1 p.2 :=
  extend_append ts ps [p]

/-- A repeated key keeps its place: of the old keys and the inserted ones each stands
    where it came first. -/
theorem keys_extend (ts : Tags) (ps : List (String × Tag)) :
    (ts.extend ps).keys = (ts.keys ++ ps.map Prod.fst).eraseDups := by
  induction ps using List.reverseRecOn with
  | nil =>
    rw [List.map_nil, List.append_nil]
    exact (eraseDups_of_nodup ts.nodup).symm
  | append_singleton ps p ih =>
    rw [extend_concat, keys_insert, ih, List.map_append, ← List.append_assoc]
    exact (eraseDups_concat _ p.1).symm

/-- A repeated key takes the new tag: under each key is the last tag that is inserted,
    or the one that was there. -/
theorem get?_extend (ts : Tags) (ps : List (String × Tag)) (key : String) :
    (ts.extend ps).get? key = (lastUnder? ps key).or (ts.get? key) := by
  induction ps using List.reverseRecOn with
  | nil => rfl
  | append_singleton ps p ih =>
    rw [extend_concat, get?_insert, ih, lastUnder?, lastUnder?, List.reverse_append,
      List.reverse_singleton, List.singleton_append, List.find?_cons]
    by_cases h : p.1 = key <;> simp [h]

theorem keys_ofList (ps : List (String × Tag)) :
    (ofList ps).keys = (ps.map Prod.fst).eraseDups :=
  keys_extend empty ps

theorem get?_ofList (ps : List (String × Tag)) (key : String) :
    (ofList ps).get? key = lastUnder? ps key := by
  rw [ofList, get?_extend]
  exact Option.or_none

/-- To insert the set of some pairs is to insert the pairs. -/
theorem extend_entries_ofList (ts : Tags) (ps : List (String × Tag)) :
    ts.extend (ofList ps).entries = ts.extend ps := by
  induction ps using List.reverseRecOn with
  | nil => rfl
  | append_singleton ps p ih =>
    have hset : ofList (ps ++ [p]) = (ofList ps).insert p.1 p.2 := extend_concat empty ps p
    rw [hset, extend_concat, ← ih]
    apply ext_get?
    · rw [keys_extend, keys_insert, keys_extend, ← eraseDups_concat, List.append_assoc]
      change (ts.keys ++ ((ofList ps).insert p.1 p.2).keys).eraseDups =
        (ts.keys ++ ((ofList ps).keys ++ [p.1])).eraseDups
      rw [keys_insert]
      split
      · next h =>
        rw [← List.append_assoc, eraseDups_concat, if_pos]
        exact List.mem_eraseDups.2 (List.mem_append_right _ h)
      · rfl
    · intro key
      rw [get?_extend, lastUnder?_entries, get?_insert, get?_insert, get?_extend,
        lastUnder?_entries]
      split <;> rfl

end GoDecls.Tags

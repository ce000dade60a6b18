/-
  Tags: texts under keys.  A tag set keeps its keys in the order in which they
  first came; a key that comes again keeps its place and takes the new text.

  * `Tags.get?` is the view of a set, `Tags.insert` writes one key and leaves
    the others (`get?_insert_self`, `get?_insert_of_ne`);
  * no key stands twice (`Tags.nodup`).
-/
namespace GoDecls

/-- The text of one tag. -/
structure Tag where
  text : String
deriving DecidableEq, Repr

/-- A set of tags by key, in the order of first insertion. -/
structure Tags where
  entries : List (String × Tag)
  nodup : (entries.map Prod.fst).Nodup := by simp
deriving DecidableEq

namespace Tags

/-- The set without tags. -/
def empty : Tags := ⟨[], List.nodup_nil⟩

/-- The list with `tag` under `key`: in the place of the key if it is there, at
    the end if not. -/
def put (key : String) (tag : Tag) : List (String × Tag) → List (String × Tag)
  | [] => [(key, tag)]
  | (k, t) :: es => if k = key then (k, tag) :: es else (k, t) :: put key tag es

theorem keys_put (key : String) (tag : Tag) (es : List (String × Tag)) :
    (put key tag es).map Prod.fst =
      if key ∈ es.map Prod.fst then es.map Prod.fst else es.map Prod.fst ++ [key] := by
  induction es with
  | nil => simp [put]
  | cons e es ih =>
    obtain ⟨k, t⟩ := e
    by_cases h : k = key
    · simp [put, h]
    · have h' : ¬ key = k := fun e => h e.symm
      simp only [put, h, if_false, List.map_cons, ih, List.mem_cons, h', false_or]
      split <;> simp

theorem nodup_put (key : String) (tag : Tag) {es : List (String × Tag)}
    (h : (es.map Prod.fst).Nodup) : ((put key tag es).map Prod.fst).Nodup := by
  rw [keys_put]
  split
  · exact h
  · next hk =>
    refine List.nodup_append.2 ⟨h, by simp, ?_⟩
    intro a ha b hb
    simp only [List.mem_singleton] at hb
    exact fun e => hk (hb ▸ e ▸ ha)

/-- The tag under a key. -/
def get? (ts : Tags) (key : String) : Option Tag :=
  (ts.entries.find? (·.1 = key)).map Prod.snd

/-- There is a tag under the key. -/
def has (ts : Tags) (key : String) : Bool := (ts.get? key).isSome

/-- The set with `tag` under `key`. -/
def insert (ts : Tags) (key : String) (tag : Tag) : Tags :=
  ⟨put key tag ts.entries, nodup_put key tag ts.nodup⟩

/-- The set with every pair inserted in turn. -/
def extend (ts : Tags) (pairs : List (String × Tag)) : Tags :=
  pairs.foldl (fun ts p => ts.insert p.1 p.2) ts

/-- The set of the pairs, inserted in turn. -/
def ofList (pairs : List (String × Tag)) : Tags := empty.extend pairs

/-- The number of keys. -/
def size (ts : Tags) : Nat := ts.entries.length

/-- There is no tag. -/
def isEmpty (ts : Tags) : Bool := ts.entries.isEmpty

theorem get?_insert_self (ts : Tags) (key : String) (tag : Tag) :
    (ts.insert key tag).get? key = some tag := by
  simp only [get?, insert]
  induction ts.entries with
  | nil => simp [put]
  | cons e es ih => by_cases h : e.1 = key <;> simp_all [put]

theorem get?_insert_of_ne (ts : Tags) {key key' : String} (tag : Tag) (h : key' ≠ key) :
    (ts.insert key tag).get? key' = ts.get? key' := by
  simp only [get?, insert]
  induction ts.entries with
  | nil => simp [put, h.symm]
  | cons e es ih =>
    by_cases he : e.1 = key <;> by_cases he' : e.1 = key' <;> simp_all [put]

end Tags

end GoDecls

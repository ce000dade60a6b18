/-
  Sets of tags that are gathered from others.

  * `Tags.Gathered found ts`: `ts` has the keys of the sets `found`, each where it came
    first, and under each the tag that came last;
  * `Tags.gathered_extend`: to extend a set by the entries of one more gathers that too.
-/
import GoDecls.Proofs.Tag.Insertion

namespace GoDecls.Tags

/-- The keys of the sets in the order in which they first come, each over the tag that it
    has in the last set in which it is. -/
structure Gathered (found : List Tags) (ts : Tags) : Prop where
  keys_eq : ts.keys = (found.flatMap keys).eraseDups
  get?_eq : ∀ key, ts.get? key = (found.filterMap (·.get? key)).getLast?

variable {found : List Tags} {ts us : Tags} {key : String}

/-- What stands in front counts only by where keys first come. -/
theorem eraseDups_append_congr {as bs : List String} (h : as.eraseDups = bs.eraseDups)
    (cs : List String) : (as ++ cs).eraseDups = (bs ++ cs).eraseDups := by
  induction cs using List.reverseRecOn with
  | nil => rw [List.append_nil, List.append_nil, h]
  | append_singleton cs c ih =>
    rw [← List.append_assoc, ← List.append_assoc, eraseDups_concat, eraseDups_concat, ih]

theorem Gathered.nil : Gathered [] empty := ⟨rfl, fun _ => rfl⟩

theorem gathered_extend (h : Gathered found ts) :
    Gathered (found ++ [us]) (ts.extend us.entries) where
  keys_eq := by
    rw [keys_extend, List.flatMap_append, List.flatMap_singleton]
    exact eraseDups_append_congr ((eraseDups_of_nodup ts.nodup).trans h.keys_eq) _
  get?_eq key := by
    rw [get?_extend, lastUnder?_entries, h.get?_eq, List.filterMap_append, List.getLast?_append]
    cases hkey : us.get? key <;> simp [hkey]

/-- The set has the keys of the sets it is gathered from. -/
theorem Gathered.has_iff (h : Gathered found ts) (key : String) :
    ts.has key = true ↔ ∃ f ∈ found, f.has key = true := by
  rw [has, h.get?_eq, List.getLast?_isSome, ne_eq, List.filterMap_eq_nil_iff, not_forall]
  simp only [has, Option.isSome_iff_ne_none, not_forall, exists_prop]

end GoDecls.Tags

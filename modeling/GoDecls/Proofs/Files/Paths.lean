/-
  Where paths lead in a tree without links, and what their writing says of it.

  * `Leads root here ss there`: from the directory at `here` the segments lead to `there`.
    Places are lists of names, the last one first, as in `walk`; `walk_eq_found_iff` says
    that this is what `walk` finds, and `Leads.append_iff` takes it apart;
  * `Path.climb`: the names at the end of a path that can be taken away one after the other,
    the last one first.  Taking one away goes to the directory above (`Leads.parent`), and
    they are all the names there are if the path never goes upwards (`Leads.eq_climb`);
  * `Path.Fits`: the path can be asked for at all, which passes to the directories above.
-/
import Mathlib.Data.List.Basic
import Mathlib.Data.List.TakeWhile
import Mathlib.Order.MinMax
import GoDecls.Files.Lookup

namespace GoDecls.Files

namespace Node

theorem at?_append (n : Node) (xs ys : List FileName) :
    n.at? (xs ++ ys) = (n.at? xs).bind (·.at? ys) := by
  induction xs generalizing n with
  | nil => simp [at?]
  | cons x xs ih =>
    cases n with
    | dir entries =>
      rw [List.cons_append, at?, at?, Option.bind_assoc]
      exact congrArg _ (funext ih)
    | _ => rfl

/-- What stands under a name in the directory. -/
theorem at?_concat {n : Node} {xs : List FileName} {entries : List Entry}
    (h : n.at? xs = some (.dir entries)) (name : FileName) :
    n.at? (xs ++ [name]) = find? entries name := by
  rw [at?_append, h, Option.bind_some, at?]
  cases find? entries name with
  | none => rfl
  | some m => simp [at?]

/-- No link stands in the tree. -/
def LinkFree (root : Node) : Prop := ∀ names target, root.at? names ≠ some (.link target)

theorem LinkFree.find? {root : Node} (hfree : root.LinkFree) {names : List FileName}
    {entries : List Entry} (h : root.at? names = some (.dir entries)) (name : FileName) (target : String) :
    Node.find? entries name ≠ some (.link target) := by
  rw [← at?_concat h]
  exact hfree _ target

theorem at?_dir {entries : List Entry} {name : FileName} {names : List FileName} {n : Node}
    (h : (dir entries).at? (name :: names) = some n) :
    ∃ e ∈ entries, e.name = name ∧ e.node.at? names = some n := by
  rw [at?, find?] at h
  obtain ⟨m, hm, hn⟩ := Option.bind_eq_some_iff.1 h
  obtain ⟨e, he, rfl⟩ := Option.map_eq_some_iff.1 hm
  exact ⟨e, List.mem_of_find?_eq_some he, by simpa using List.find?_some he, hn⟩

theorem linkFree_file (content : ByteArray) : (file content).LinkFree := by
  intro names target h
  cases names <;> cases h

theorem linkFree_dir {entries : List Entry} (h : ∀ e ∈ entries, e.node.LinkFree) :
    (dir entries).LinkFree := by
  intro names target hat
  cases names with
  | nil => cases hat
  | cons name names =>
    obtain ⟨e, he, -, hn⟩ := at?_dir hat
    exact h e he names target hn

end Node

open Node

/-! ## Segments -/

/-- From the directory at `here` the segments lead to `there`: names go down, `..` goes up,
    and other segments stay. -/
inductive Leads (root : Node) : (here segments there : List FileName) → Prop where
  | nil {here : List FileName} : Leads root here [] here
  | stay {here ss there : List FileName} {s : FileName} {entries : List Entry}
      (hdir : root.at? here.reverse = some (.dir entries)) (hs : isStay s = true)
      (h : Leads root here ss there) : Leads root here (s :: ss) there
  | up {here ss there : List FileName} {entries : List Entry}
      (hdir : root.at? here.reverse = some (.dir entries)) (h : Leads root here.tail ss there) :
      Leads root here (.text ".." :: ss) there
  | down {here ss there : List FileName} {s : FileName} {entries : List Entry} {n : Node}
      (hdir : root.at? here.reverse = some (.dir entries)) (hs : isStay s = false) (hup : s ≠ .text "..")
      (hsize : s.size ≤ maxName) (hn : find? entries s = some n)
      (h : Leads root (s :: here) ss there) : Leads root here (s :: ss) there

variable {root : Node} {here there xs ys : List FileName} {s : FileName} {follow : Bool} {links : Nat}
  {entries : List Entry}

theorem not_isStay_up : isStay (.text "..") = false := by decide

theorem walk_stay (hdir : root.at? here.reverse = some (.dir entries)) (hs : isStay s = true) :
    walk root follow links here (s :: xs) = walk root follow links here xs := by
  rw [walk, hdir]
  exact if_pos hs

theorem walk_up (hdir : root.at? here.reverse = some (.dir entries)) :
    walk root follow links here (.text ".." :: xs) = walk root follow links here.tail xs := by
  rw [walk, hdir]
  simp [not_isStay_up]

theorem walk_node (hdir : root.at? here.reverse = some (.dir entries)) (hs : isStay s = false)
    (hup : s ≠ .text "..") (hsize : s.size ≤ maxName) {n : Node} (hn : find? entries s = some n)
    (hlink : ∀ target, n ≠ .link target) :
    walk root follow links here (s :: xs) = walk root follow links (s :: here) xs := by
  rw [walk, hdir]
  simp only [hs, hup, Nat.not_lt.2 hsize, hn]
  cases n with
  | link target => exact absurd rfl (hlink target)
  | _ => rfl

theorem walk_down (hfree : root.LinkFree) (hdir : root.at? here.reverse = some (.dir entries))
    (hs : isStay s = false) (hup : s ≠ .text "..") (hsize : s.size ≤ maxName) {n : Node}
    (hn : find? entries s = some n) :
    walk root follow links here (s :: xs) = walk root follow links (s :: here) xs :=
  walk_node hdir hs hup hsize hn fun target heq => hfree.find? hdir s target (hn.trans (heq ▸ rfl))

/-- What follows is walked from where the segments lead. -/
theorem Leads.walk_append (hfree : root.LinkFree) (h : Leads root here xs there) (ys : List FileName) :
    walk root follow links here (xs ++ ys) = walk root follow links there ys := by
  induction h with
  | nil => rfl
  | stay hdir hs _ ih => rw [List.cons_append, walk_stay hdir hs, ih]
  | up hdir _ ih => rw [List.cons_append, walk_up hdir, ih]
  | down hdir hs hup hsize hn _ ih =>
    rw [List.cons_append, walk_down hfree hdir hs hup hsize hn, ih]

theorem leads_of_walk (hfree : root.LinkFree) {n : Node} :
    ∀ {xs here : List FileName}, walk root follow links here xs = .ok (.found there n) →
      Leads root here xs there ∧ root.at? there.reverse = some n
  | [], here, h => by
    rw [walk] at h
    split at h
    · next hn =>
      cases h
      exact ⟨.nil, hn⟩
    · cases h
  | s :: xs, here, h => by
    cases hnode : root.at? here.reverse with
    | none =>
      rw [walk, hnode] at h
      cases h
    | some node =>
      cases node with
      | file _ =>
        rw [walk, hnode] at h
        cases h
      | link _ => exact absurd hnode (hfree _ _)
      | dir entries =>
        by_cases hs : isStay s = true
        · rw [walk_stay hnode hs] at h
          exact (leads_of_walk hfree h).imp_left (.stay hnode hs)
        · rw [Bool.not_eq_true] at hs
          by_cases hup : s = .text ".."
          · subst hup
            rw [walk_up hnode] at h
            exact (leads_of_walk hfree h).imp_left (.up hnode)
          · by_cases hsize : s.size ≤ maxName
            · cases hn : find? entries s with
              | some m =>
                rw [walk_down hfree hnode hs hup hsize hn] at h
                exact (leads_of_walk hfree h).imp_left (.down hnode hs hup hsize hn)
              | none =>
                rw [walk, hnode] at h
                simp only [hs, hup, Nat.not_lt.2 hsize, hn] at h
                cases hend : xs.isEmpty <;> rw [hend] at h <;> cases h
            · rw [walk, hnode] at h
              simp only [hs, hup, Nat.lt_of_not_le hsize] at h
              cases h

/-- **`walk` finds where the segments lead.** -/
theorem walk_eq_found_iff (hfree : root.LinkFree) {n : Node} :
    walk root follow links here xs = .ok (.found there n) ↔
      Leads root here xs there ∧ root.at? there.reverse = some n := by
  refine ⟨leads_of_walk hfree, fun ⟨h, hn⟩ => ?_⟩
  have hwalk : walk root follow links here (xs ++ []) = walk root follow links there [] :=
    h.walk_append hfree []
  rw [List.append_nil] at hwalk
  rw [hwalk, walk, hn]

theorem Leads.append_iff : Leads root here (xs ++ ys) there ↔
    ∃ mid, Leads root here xs mid ∧ Leads root mid ys there := by
  constructor
  · intro h
    induction xs generalizing here with
    | nil => exact ⟨here, .nil, h⟩
    | cons s xs ih =>
      cases h with
      | stay hdir hs h =>
        obtain ⟨mid, hxs, hys⟩ := ih h
        exact ⟨mid, .stay hdir hs hxs, hys⟩
      | up hdir h =>
        obtain ⟨mid, hxs, hys⟩ := ih h
        exact ⟨mid, .up hdir hxs, hys⟩
      | down hdir hs hup hsize hn h =>
        obtain ⟨mid, hxs, hys⟩ := ih h
        exact ⟨mid, .down hdir hs hup hsize hn hxs, hys⟩
  · rintro ⟨mid, hxs, hys⟩
    induction hxs with
    | nil => exact hys
    | stay hdir hs _ ih => exact .stay hdir hs (ih hys)
    | up hdir _ ih => exact .up hdir (ih hys)
    | down hdir hs hup hsize hn _ ih => exact .down hdir hs hup hsize hn (ih hys)

theorem Leads.eq_of_stays (h : Leads root here xs there) (hxs : ∀ s ∈ xs, isStay s = true) :
    there = here := by
  induction h with
  | nil => rfl
  | stay _ _ _ ih => exact ih fun s hs => hxs s (List.mem_cons_of_mem _ hs)
  | up _ _ _ => cases not_isStay_up.symm.trans (hxs _ List.mem_cons_self)
  | down _ hs _ _ _ _ _ => cases hs.symm.trans (hxs _ List.mem_cons_self)

/-! ## The writing of a path -/

namespace Path

/-- The names that can be taken away at the end of the path, the last one first: those
    behind the last `..`. -/
def climb (p : Path) : List FileName :=
  (p.segments.reverse.filter (!isStay ·)).takeWhile (· ≠ .text "..")

variable {p up : Path} {name : FileName}

theorem filter_stays {ss : List FileName} (h : ∀ s ∈ ss, isStay s = true) :
    ss.filter (!isStay ·) = [] := by
  rw [List.filter_eq_nil_iff]
  intro s hs
  simp [h s hs]

theorem isStay_of_mem_takeWhile {ss : List FileName} {s : FileName} (h : s ∈ ss.takeWhile isStay) :
    isStay s = true :=
  List.all_eq_true.1 List.all_takeWhile s h

theorem filter_upwards (ss : List FileName) :
    (upwards ss).filter (!isStay ·) = ss.reverse.filter (!isStay ·) := by
  conv_rhs => rw [← List.takeWhile_append_dropWhile (p := isStay) (l := ss.reverse)]
  rw [List.filter_append, filter_stays fun s hs => isStay_of_mem_takeWhile hs, List.nil_append,
    upwards]

theorem not_isStay_of_upwards {ss before : List FileName} (h : upwards ss = name :: before) :
    isStay name = false := by
  have hhead := List.head?_dropWhile_not isStay ss.reverse
  rw [← upwards, h] at hhead
  exact hhead

/-- Nothing can be taken away from a path without a last name. -/
theorem climb_eq_nil (h : p.fileName? = none) : p.climb = [] := by
  rw [climb, ← filter_upwards]
  unfold fileName? at h
  split at h
  · next hnil => rw [hnil, List.filter_nil, List.takeWhile_nil]
  · next s before hcons =>
    split at h
    · next hup => simp [hcons, hup, not_isStay_up]
    · cases h

/-- The last name and the path without it, by the segments. -/
theorem segments_of_fileName? (h : p.fileName? = some name) : ∃ up stays stays',
    p.parent? = some up ∧ p.segments = up.segments ++ (stays ++ name :: stays') ∧
      (∀ s ∈ stays, isStay s = true) ∧ (∀ s ∈ stays', isStay s = true) ∧
      isStay name = false ∧ name ≠ .text ".." := by
  unfold fileName? at h
  split at h
  · cases h
  · next s before hcons =>
    split at h
    · cases h
    · next hup =>
      cases h
      refine ⟨⟨(before.dropWhile isStay).reverse⟩, (before.takeWhile isStay).reverse,
        (p.segments.reverse.takeWhile isStay).reverse, ?_, ?_,
        fun s hs => isStay_of_mem_takeWhile (List.mem_reverse.1 hs),
        fun s hs => isStay_of_mem_takeWhile (List.mem_reverse.1 hs),
        not_isStay_of_upwards hcons, hup⟩
      · rw [parent?, hcons]
      · have hsegments := List.takeWhile_append_dropWhile (p := isStay) (l := p.segments.reverse)
        rw [← upwards, hcons] at hsegments
        generalize p.segments.reverse.takeWhile isStay = front at hsegments ⊢
        rw [← List.reverse_inj, ← hsegments]
        simp [List.takeWhile_append_dropWhile]

/-- The last name is the first that can be taken away, and the others are those of the path
    without it. -/
theorem climb_of_fileName? (h : p.fileName? = some name) (hup : p.parent? = some up) :
    p.climb = name :: up.climb := by
  obtain ⟨up', stays, stays', hup', hsegments, hstays, hstays', hname, hnot⟩ :=
    segments_of_fileName? h
  cases hup.symm.trans hup'
  have hfront : stays.reverse.filter (!isStay ·) = [] :=
    filter_stays fun s hs => hstays s (List.mem_reverse.1 hs)
  have hback : stays'.reverse.filter (!isStay ·) = [] :=
    filter_stays fun s hs => hstays' s (List.mem_reverse.1 hs)
  simp only [climb, hsegments, List.reverse_append, List.reverse_cons, List.append_assoc,
    List.filter_append, hfront, hback, List.nil_append, List.cons_append, List.filter_cons, hname,
    Bool.not_false, if_true]
  simp [hnot]

end Path

/-- Without the last name a path leads to the directory above. -/
theorem Leads.parent {p up : Path} {name : FileName} (h : Leads root [] p.segments here)
    (hname : p.fileName? = some name) (hup : p.parent? = some up) :
    ∃ above entries, here = name :: above ∧ Leads root [] up.segments above ∧
      root.at? above.reverse = some (.dir entries) := by
  obtain ⟨up', stays, stays', hup', hsegments, hstays, hstays', hstay, hnot⟩ :=
    Path.segments_of_fileName? hname
  cases hup.symm.trans hup'
  rw [hsegments] at h
  obtain ⟨above, habove, h⟩ := Leads.append_iff.1 h
  obtain ⟨above', hstill, h⟩ := Leads.append_iff.1 h
  rw [hstill.eq_of_stays hstays] at h
  cases h with
  | stay _ hs _ => cases hstay.symm.trans hs
  | up _ _ => exact absurd rfl hnot
  | down hdir _ _ _ _ h => exact ⟨above, _, h.eq_of_stays hstays', habove, hdir⟩

/-- Segments that never go upwards lead to the names among them. -/
theorem Leads.eq_of_down (h : Leads root here xs there) (hdown : .text ".." ∉ xs) :
    there = (xs.filter (!isStay ·)).reverse ++ here := by
  induction h with
  | nil => rfl
  | stay _ hs _ ih =>
    rw [ih (List.not_mem_of_not_mem_cons hdown), List.filter_cons_of_neg (by simp [hs])]
  | up _ _ _ => exact absurd List.mem_cons_self hdown
  | down _ hs _ _ _ _ ih =>
    rw [ih (List.not_mem_of_not_mem_cons hdown), List.filter_cons_of_pos (by simp [hs])]
    simp

/-- On a path that never goes upwards, all names can be taken away. -/
theorem Leads.eq_climb {p : Path} (h : Leads root [] p.segments here)
    (hdown : .text ".." ∉ p.segments) : here = p.climb := by
  have hall : ∀ s ∈ p.segments.reverse.filter (!isStay ·), decide (s ≠ .text "..") = true := by
    intro s hs
    have hmem := List.mem_reverse.1 (List.mem_of_mem_filter hs)
    exact decide_eq_true fun heq => hdown (heq ▸ hmem)
  rw [h.eq_of_down hdown, List.append_nil, Path.climb, List.takeWhile_eq_self_iff.2 hall,
    List.filter_reverse]

/-! ## Paths that can be asked for -/

namespace Path

/-- The path can be asked for: it is short enough and holds no NUL. -/
def Fits (p : Path) : Prop := p.hasNul = false ∧ p.size < maxPath

theorem Fits.place_eq {p : Path} (h : p.Fits) :
    root.place follow p = walk root follow maxLinks [] p.segments := by
  rw [place, h.1, if_neg Bool.false_ne_true, if_neg (Nat.not_le.2 h.2)]

theorem size_le_of_sublist {ss ss' : List FileName} (h : ss.Sublist ss') :
    size ⟨ss⟩ ≤ size ⟨ss'⟩ := by
  have hbytes : bytesOf ss ≤ bytesOf ss' := by
    induction h with
    | slnil => exact Nat.le_refl 0
    | cons s _ ih => exact Nat.le_add_left_of_le ih
    | cons_cons s _ ih => exact Nat.add_le_add_left ih _
  exact max_le_max (le_refl 1) hbytes

theorem hasNul_eq_false_iff {p : Path} :
    p.hasNul = false ↔ ∀ s ∈ p.segments, s.hasNul = false := by
  simp [hasNul]

/-- A path of fewer segments can be asked for too. -/
theorem Fits.sublist {ss ss' : List FileName} (h : Fits ⟨ss'⟩) (hss : ss.Sublist ss') :
    Fits ⟨ss⟩ := by
  obtain ⟨hnul, hsize⟩ := h
  rw [hasNul_eq_false_iff] at hnul
  exact ⟨hasNul_eq_false_iff.2 fun s hs => hnul s (hss.subset hs),
    (size_le_of_sublist hss).trans_lt hsize⟩

/-- The segments that a name is joined to. -/
def base (p : Path) : List FileName :=
  if p.segments.getLast? = some (.text "") then p.segments.dropLast else p.segments

theorem join_eq (p : Path) (name : FileName) : p.join name = ⟨p.base ++ [name]⟩ := rfl

theorem segments_eq_base (p : Path) :
    p.segments = p.base ∨ p.segments = p.base ++ [.text ""] := by
  unfold base
  split
  · next hlast => exact .inr (List.dropLast_append_getLast? _ hlast).symm
  · exact .inl rfl

theorem base_prefix (p : Path) : p.base <+: p.segments := by
  obtain heq | heq := p.segments_eq_base
  · exact ⟨[], by rw [List.append_nil, ← heq]⟩
  · exact ⟨[.text ""], heq.symm⟩

/-- In the directory above, a name can be asked for too. -/
theorem Fits.parent {p up : Path} {last name : FileName} (h : (p.join name).Fits)
    (hlast : p.fileName? = some last) (hup : p.parent? = some up) : (up.join name).Fits := by
  obtain ⟨up', stays, stays', hup', hsegments, -⟩ := segments_of_fileName? hlast
  cases hup.symm.trans hup'
  have hprefix : up.segments <+: p.segments := ⟨_, hsegments.symm⟩
  have hlen : up.segments.length ≤ p.base.length := by
    have hlt := length_of_parent? hup
    obtain heq | heq := p.segments_eq_base
    · exact (heq ▸ hlt).le
    · rw [heq, List.length_append, List.length_singleton] at hlt
      omega
  have hbase : up.base <+: p.base :=
    up.base_prefix.trans (List.prefix_of_prefix_length_le hprefix p.base_prefix hlen)
  rw [join_eq] at h ⊢
  exact h.sublist (hbase.sublist.append_right [name])

end Path

/-- The segments a name is joined to lead to the same directory. -/
theorem Leads.base {p : Path} (h : Leads root [] p.segments here) :
    Leads root [] p.base here := by
  obtain heq | heq := p.segments_eq_base
  · rwa [← heq]
  · rw [heq] at h
    obtain ⟨mid, hmid, hlast⟩ := Leads.append_iff.1 h
    rwa [hlast.eq_of_stays (by simp [isStay])]

end GoDecls.Files

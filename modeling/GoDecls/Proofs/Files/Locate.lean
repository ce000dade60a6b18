/-
  The module that a file belongs to, by the tree.

  * `NearestModule root up below name`: of the directory at `up ++ below` and those above it,
    the one at `up` is the first with a `go.mod`, which names the module `name`;
  * `locate_by_tree`: where no link stands and every `go.mod` names a module, `locate` finds
    the nearest one, unless a directory comes before it that is named `vendor` or whose name
    is no text, or the path does not climb up to it.  A path climbs no further than its last
    `..`, so one without climbs to the root (`locate_stops_at_parent`: one with a `..` may stop
    before).
-/
import Mathlib.Data.List.Induction
import GoDecls.Files.Module
import GoDecls.Proofs.Files.Paths

namespace GoDecls.Files

namespace Node

/-- The name of the module, as a `go.mod` tells it. -/
def moduleName? : Node → Option String
  | .file content => (String.fromUTF8? content).bind ModFile.moduleName?
  | _ => none

/-- Every `go.mod` is a file that names a module. -/
def ModulesNamed (root : Node) : Prop :=
  ∀ names n, root.at? (names ++ [.text "go.mod"]) = some n → ∃ name, n.moduleName? = some name

/-- The path leads to the directory at `names`. -/
def LeadsTo (root : Node) (p : Path) (names : List FileName) : Prop :=
  ∃ entries, root.place true p = .ok (.found names.reverse (.dir entries))

end Node

open Node

/-- Of the directory at `up ++ below` and those above it, the one at `up` is the first that
    holds a `go.mod`, and the module is `name` there. -/
structure NearestModule (root : Node) (up below : List FileName) (name : String) : Prop where
  named : (root.at? (up ++ [.text "go.mod"])).bind moduleName? = some name
  nearest : ∀ names, names ≠ [] → names <+: below → root.at? (up ++ names ++ [.text "go.mod"]) = none

namespace NearestModule

variable {root : Node} {up below : List FileName} {name : String} {s : FileName}

theorem here (h : (root.at? (up ++ [.text "go.mod"])).bind moduleName? = some name) :
    NearestModule root up [] name :=
  ⟨h, fun _ hne hprefix => absurd (List.prefix_nil.1 hprefix) hne⟩

/-- One directory further down, which holds none. -/
theorem concat_iff (hnone : root.at? (up ++ (below ++ [s]) ++ [.text "go.mod"]) = none) :
    NearestModule root up (below ++ [s]) name ↔ NearestModule root up below name := by
  constructor
  · intro h
    exact ⟨h.named, fun names hne hfront =>
      h.nearest names hne (hfront.trans (List.prefix_append below [s]))⟩
  · intro h
    refine ⟨h.named, fun names hne hfront => ?_⟩
    obtain heq | hshort := List.prefix_concat_iff.1 hfront
    · rwa [heq]
    · exact h.nearest names hne hshort

end NearestModule

/-! ## One step of the search -/

/-- The path leads to the directory at `here`, and a `go.mod` can be asked for there. -/
structure SearchedAt (root : Node) (dir : Path) (here : List FileName) : Prop where
  leads : Leads root [] dir.segments here
  isDir : ∃ entries, root.at? here.reverse = some (.dir entries)
  fits : (dir.join (.text "go.mod")).Fits

section Steps

variable {root : Node} {file dir up : Path} {here : List FileName} {below : List String}
  {name s : String}

theorem SearchedAt.of_leadsTo (hfree : root.LinkFree) {names : List FileName}
    (h : root.LeadsTo dir names) (hsize : (dir.join (.text "go.mod")).size < maxPath) :
    SearchedAt root dir names.reverse := by
  obtain ⟨entries, hplace⟩ := h
  rw [place] at hplace
  split at hplace
  · cases hplace
  · next hnul =>
    split at hplace
    · cases hplace
    · obtain ⟨hleads, hdir⟩ := leads_of_walk hfree hplace
      refine ⟨hleads, ⟨entries, hdir⟩, ?_, hsize⟩
      rw [Bool.not_eq_true, Path.hasNul_eq_false_iff] at hnul
      rw [Path.join_eq, Path.hasNul_eq_false_iff]
      exact List.forall_mem_append.2 ⟨fun s hs => hnul s (dir.base_prefix.subset hs),
        List.forall_mem_singleton.2 (by decide)⟩

theorem SearchedAt.parent {s : FileName} (h : SearchedAt root dir here)
    (hs : dir.fileName? = some s)
    (hup : dir.parent? = some up) : ∃ above, here = s :: above ∧ SearchedAt root up above := by
  obtain ⟨above, entries, hhere, habove, hdir⟩ := h.leads.parent hs hup
  exact ⟨above, hhere, habove, ⟨entries, hdir⟩, h.fits.parent hs hup⟩

/-- Asking for the `go.mod` of the directory gives what stands there. -/
theorem SearchedAt.lookup (h : SearchedAt root dir here) (hfree : root.LinkFree) :
    root.lookup true (dir.join (.text "go.mod")) =
      (root.at? (here.reverse ++ [.text "go.mod"])).elim (.error .notFound) .ok := by
  obtain ⟨entries, hdir⟩ := h.isDir
  have hwalk : root.place true (dir.join (.text "go.mod")) = walk root true maxLinks here [.text "go.mod"] := by
    rw [h.fits.place_eq, Path.join_eq, h.leads.base.walk_append hfree]
  rw [Node.lookup, hwalk]
  cases hn : find? entries (.text "go.mod") with
  | none =>
    have hmissing : walk root true maxLinks here [.text "go.mod"] = .ok (.missing here (.text "go.mod")) := by
      have hsize : ¬maxName < FileName.size (.text "go.mod") := by decide
      rw [walk, hdir]
      simp [hn, isStay, hsize]
    rw [hmissing, at?_concat hdir, hn]
    rfl
  | some n =>
    have hat : root.at? (here.reverse ++ [.text "go.mod"]) = some n := by rw [at?_concat hdir, hn]
    have hfound : walk root true maxLinks here [.text "go.mod"] = .ok (.found (.text "go.mod" :: here) n) := by
      rw [walk_down hfree hdir (by decide) (by decide) (by decide) hn, walk, List.reverse_cons, hat]
    rw [hfound, hat]
    rfl

theorem locateFrom_named (hfree : root.LinkFree) (h : SearchedAt root dir here)
    (hname : (root.at? (here.reverse ++ [.text "go.mod"])).bind moduleName? = some name) :
    locateFrom root file dir below = .ok ⟨name, "/".intercalate below⟩ := by
  obtain ⟨n, hat, hn⟩ := Option.bind_eq_some_iff.1 hname
  cases n with
  | file content =>
    obtain ⟨text, htext, hmodule⟩ := Option.bind_eq_some_iff.1 hn
    have hread : root.readText (dir.join (.text "go.mod")) = .ok text := by
      rw [readText, h.lookup hfree, hat]
      simp only [Option.elim, htext]
    rw [locateFrom, hread]
    simp only [hmodule]
  | dir _ => cases hn
  | link _ => cases hn

theorem SearchedAt.readText_none (hfree : root.LinkFree) (h : SearchedAt root dir here)
    (hnone : root.at? (here.reverse ++ [.text "go.mod"]) = none) :
    root.readText (dir.join (.text "go.mod")) = .error .notFound := by
  rw [readText, h.lookup hfree, hnone]
  rfl

theorem locateFrom_climbs (hfree : root.LinkFree) (h : SearchedAt root dir here)
    (hnone : root.at? (here.reverse ++ [.text "go.mod"]) = none)
    (hs : dir.fileName? = some (.text s)) (hvendor : s.toLower ≠ "vendor") (hup : dir.parent? = some up) :
    locateFrom root file dir below = locateFrom root file up (s :: below) := by
  rw [locateFrom, h.readText_none hfree hnone]
  simp only [hs, Option.bind_some, FileName.text?, if_neg hvendor]
  split
  · next hnoparent => cases hup.symm.trans hnoparent
  · next up' hup' =>
    cases hup.symm.trans hup'
    rfl

theorem locateFrom_ends (hfree : root.LinkFree) (h : SearchedAt root dir here)
    (hnone : root.at? (here.reverse ++ [.text "go.mod"]) = none)
    (hend : ∀ s, dir.fileName? = some (.text s) → s.toLower = "vendor") :
    locateFrom root file dir below = .error (.moduleNotFound file) := by
  rw [locateFrom, h.readText_none hfree hnone]
  cases hs : dir.fileName? with
  | none => rfl
  | some name =>
    cases name with
    | text s => simp only [Option.bind_some, FileName.text?, if_pos (hend s hs)]
    | raw _ _ => rfl

end Steps

/-! ## The whole search -/

section Search

variable {root : Node} {file dir : Path} {here : List FileName} {below : List String}

/-- The search comes to the nearest `go.mod` that the path climbs to. -/
theorem locateFrom_nearest (hfree : root.LinkFree) {up : List FileName} {down : List String}
    {name : String}
    (hmodule : NearestModule root up (down.map FileName.text) name)
    (h : SearchedAt root dir (up ++ down.map FileName.text).reverse)
    (hclimb : down.length ≤ dir.climb.length) (hvendor : ∀ s ∈ down, s.toLower ≠ "vendor") :
    locateFrom root file dir below = .ok ⟨name, "/".intercalate (down ++ below)⟩ := by
  induction down using List.reverseRecOn generalizing dir below with
  | nil =>
    rw [List.map_nil, List.append_nil] at h
    exact locateFrom_named hfree h (by rw [List.reverse_reverse]; exact hmodule.named)
  | append_singleton down s ih =>
    rw [List.map_append, List.map_singleton] at hmodule h
    have hnone := hmodule.nearest (down.map FileName.text ++ [.text s]) (by simp)
      (List.prefix_refl _)
    cases hs : dir.fileName? with
    | none =>
      rw [Path.climb_eq_nil hs, List.length_append] at hclimb
      cases hclimb
    | some s' =>
      obtain ⟨up', -, -, hup, -⟩ := Path.segments_of_fileName? hs
      obtain ⟨above, habove, h'⟩ := h.parent hs hup
      rw [← List.append_assoc, List.reverse_append, List.reverse_singleton,
        List.singleton_append] at habove
      cases habove
      rw [locateFrom_climbs hfree h (by rwa [List.reverse_reverse]) hs (hvendor s (by simp)) hup,
        List.append_assoc, List.singleton_append]
      refine ih ((NearestModule.concat_iff hnone).1 hmodule) h' ?_ fun s hs =>
        hvendor s (List.mem_append_left _ hs)
      rw [Path.climb_of_fileName? hs hup, List.length_append, List.length_singleton,
        List.length_cons] at hclimb
      omega

/-- What the search comes to: nothing, or a nearest `go.mod`. -/
theorem locateFrom_cases (hfree : root.LinkFree) (hmods : root.ModulesNamed)
    (h : SearchedAt root dir here) :
    locateFrom root file dir below = .error (.moduleNotFound file) ∨
      ∃ (up : List FileName) (down : List String) (name : String),
        here.reverse = up ++ down.map FileName.text ∧
        NearestModule root up (down.map FileName.text) name ∧
        down.length ≤ dir.climb.length ∧ ∀ s ∈ down, s.toLower ≠ "vendor" := by
  induction hlen : dir.segments.length using Nat.strong_induction_on generalizing dir here below with
  | _ len ih =>
    cases hat : root.at? (here.reverse ++ [.text "go.mod"]) with
    | some n =>
      obtain ⟨name, hname⟩ := hmods _ _ hat
      have hbind : (root.at? (here.reverse ++ [.text "go.mod"])).bind moduleName? = some name := by
        rw [hat, Option.bind_some, hname]
      exact .inr ⟨here.reverse, [], name, (List.append_nil _).symm, .here hbind, Nat.zero_le _,
        List.forall_mem_nil _⟩
    | none =>
      cases hs : dir.fileName? with
      | none => exact .inl (locateFrom_ends hfree h hat fun s hs' => by rw [hs] at hs'; cases hs')
      | some s =>
        cases s with
        | raw _ _ => exact .inl (locateFrom_ends hfree h hat fun s hs' => by cases hs.symm.trans hs')
        | text s =>
          by_cases hvendor : s.toLower = "vendor"
          · refine .inl (locateFrom_ends hfree h hat fun s' hs' => ?_)
            cases hs.symm.trans hs'
            exact hvendor
          · obtain ⟨up', -, -, hup, -⟩ := Path.segments_of_fileName? hs
            obtain ⟨above, rfl, habove⟩ := h.parent hs hup
            rw [List.reverse_cons] at hat
            rw [locateFrom_climbs hfree h (by rwa [List.reverse_cons]) hs hvendor hup]
            obtain hnone | ⟨up, down, name, hnames, hmodule, hclimb, hdown⟩ :=
              ih _ (hlen ▸ Path.length_of_parent? hup) habove rfl
            · exact .inl hnone
            · rw [hnames, List.append_assoc up] at hat
              have hdirs : (down ++ [s]).map FileName.text =
                  down.map FileName.text ++ [.text s] := by
                rw [List.map_append, List.map_singleton]
              refine .inr ⟨up, down ++ [s], name, ?_, ?_, ?_, ?_⟩
              · rw [hdirs, List.reverse_cons, hnames, List.append_assoc]
              · exact hdirs ▸ (NearestModule.concat_iff hat).2 hmodule
              · rw [Path.climb_of_fileName? hs hup, List.length_append]
                exact Nat.succ_le_succ hclimb
              · exact List.forall_mem_append.2 ⟨hdown, List.forall_mem_singleton.2 hvendor⟩

/-- **The module of a file is that of the nearest `go.mod` the path climbs to.**  No link
    stands in the tree, every `go.mod` names a module, and the path of a `go.mod` next to the
    file is short enough to be asked for.  Then `locate` gives the module of the nearest
    `go.mod` at or above the directory of the file, with the names from there down to it, if
    these are texts, none of them is `vendor` and the path climbs that far; else it gives none.
    A path without `..` climbs all the way to the root. -/
theorem locate_by_tree (hfree : root.LinkFree) (hmods : root.ModulesNamed)
    (hparent : file.parent? = some dir) {names : List FileName} (hdir : root.LeadsTo dir names)
    (hsize : (dir.join (.text "go.mod")).size < maxPath) :
    (∀ m, locate root file = .ok m ↔
      ∃ (up : List FileName) (down : List String) (name : String),
        names = up ++ down.map FileName.text ∧
        NearestModule root up (down.map FileName.text) name ∧
        down.length ≤ dir.climb.length ∧ (∀ s ∈ down, s.toLower ≠ "vendor") ∧
        m = ⟨name, "/".intercalate down⟩) ∧
    ((∀ m, locate root file ≠ .ok m) → locate root file = .error (.moduleNotFound file)) ∧
    (.text ".." ∉ dir.segments → names = dir.climb.reverse) := by
  have hat : SearchedAt root dir names.reverse := .of_leadsTo hfree hdir hsize
  have hlocate : locate root file = locateFrom root file dir [] := by
    rw [locate, hparent]
  have hfound : ∀ {up : List FileName} {down : List String} {name : String},
      names = up ++ down.map FileName.text →
      NearestModule root up (down.map FileName.text) name → down.length ≤ dir.climb.length →
      (∀ s ∈ down, s.toLower ≠ "vendor") →
      locate root file = .ok ⟨name, "/".intercalate down⟩ := by
    intro up down name hnames hmodule hclimb hvendor
    rw [hnames] at hat
    rw [hlocate, locateFrom_nearest hfree hmodule hat hclimb hvendor, List.append_nil]
  have hcases : locateFrom root file dir [] = _ ∨ _ := locateFrom_cases hfree hmods hat
  rw [← hlocate, List.reverse_reverse] at hcases
  refine ⟨fun m => ⟨fun hm => ?_, ?_⟩, fun hno => ?_, fun hdown => ?_⟩
  · obtain hnone | ⟨up, down, name, hnames, hmodule, hclimb, hvendor⟩ := hcases
    · cases hm.symm.trans hnone
    · have hm' := hfound hnames hmodule hclimb hvendor
      cases hm.symm.trans hm'
      exact ⟨up, down, name, hnames, hmodule, hclimb, hvendor, rfl⟩
  · rintro ⟨up, down, name, hnames, hmodule, hclimb, hvendor, rfl⟩
    exact hfound hnames hmodule hclimb hvendor
  · obtain hnone | ⟨up, down, name, hnames, hmodule, hclimb, hvendor⟩ := hcases
    · exact hnone
    · exact absurd (hfound hnames hmodule hclimb hvendor) (hno _)
  · rw [← hat.leads.eq_climb hdown, List.reverse_reverse]

end Search

/-! ## Trees written out -/

namespace Node

theorem modulesNamed_file (content : ByteArray) : (file content).ModulesNamed := by
  intro names n h
  cases names <;> cases h

theorem modulesNamed_dir {entries : List Entry}
    (h : ∀ e ∈ entries, e.node.ModulesNamed ∧
      (e.name = .text "go.mod" → ∃ name, e.node.moduleName? = some name)) :
    (dir entries).ModulesNamed := by
  intro names n hat
  cases names with
  | nil =>
    obtain ⟨e, he, hname, hn⟩ := at?_dir hat
    cases hn
    exact (h e he).2 hname
  | cons name names =>
    obtain ⟨e, he, -, hn⟩ := at?_dir hat
    exact (h e he).1 names n hn

end Node

/-- A tree with a module at the root and the directories `a` and `a/b`. -/
def Node.nested : Node :=
  .dir [⟨.text "go.mod", .file "module m\n".toByteArray⟩, ⟨.text "a", .dir [⟨.text "b", .dir []⟩]⟩]

namespace Node

theorem nested_linkFree : nested.LinkFree := by
  refine linkFree_dir (List.forall_mem_cons.2 ⟨linkFree_file _, List.forall_mem_singleton.2 ?_⟩)
  exact linkFree_dir (List.forall_mem_singleton.2 (linkFree_dir (List.forall_mem_nil _)))

theorem nested_named :
    (nested.at? ([] ++ [.text "go.mod"])).bind moduleName? = some "m" := by
  have htext : String.fromUTF8? "module m\n".toByteArray = some "module m\n" := by
    rw [String.fromUTF8?, dif_pos (String.isValidUTF8 _)]
    rfl
  have hname : ModFile.moduleName? "module m\n" = some "m" := by decide +kernel
  have hat : nested.at? ([] ++ [.text "go.mod"]) = some (.file "module m\n".toByteArray) := rfl
  rw [hat, Option.bind_some, moduleName?, htext, Option.bind_some, hname]

theorem nested_modulesNamed : nested.ModulesNamed := by
  have hempty : (dir []).ModulesNamed := modulesNamed_dir (List.forall_mem_nil _)
  have hb : (dir [⟨.text "b", dir []⟩]).ModulesNamed :=
    modulesNamed_dir (List.forall_mem_singleton.2 ⟨hempty, fun h => absurd h (by decide)⟩)
  exact modulesNamed_dir (List.forall_mem_cons.2
    ⟨⟨modulesNamed_file _, fun _ => ⟨"m", nested_named⟩⟩,
      List.forall_mem_singleton.2 ⟨hb, fun h => absurd h (by decide)⟩⟩)

end Node

theorem Leads.leadsTo {root : Node} (hfree : root.LinkFree) {p : Path} {names : List FileName}
    {entries : List Entry} (h : Leads root [] p.segments names.reverse)
    (hdir : root.at? names = some (.dir entries)) (hfits : p.Fits) : root.LeadsTo p names := by
  refine ⟨entries, ?_⟩
  rw [hfits.place_eq, walk_eq_found_iff hfree, List.reverse_reverse]
  exact ⟨h, hdir⟩

theorem locate_by_tree_nested :
    nested.LinkFree ∧ nested.ModulesNamed ∧
      Path.parent? ⟨[.text "a", .text "b", .text "x.go"]⟩ = some ⟨[.text "a", .text "b"]⟩ ∧
      nested.LeadsTo ⟨[.text "a", .text "b"]⟩ [.text "a", .text "b"] ∧
      (Path.join ⟨[.text "a", .text "b"]⟩ (.text "go.mod")).size < maxPath ∧
      locate nested ⟨[.text "a", .text "b", .text "x.go"]⟩ = .ok ⟨"m", "a/b"⟩ := by
  have hparent : Path.parent? ⟨[.text "a", .text "b", .text "x.go"]⟩ =
      some ⟨[.text "a", .text "b"]⟩ := by decide
  have hleads : Leads nested [] [.text "a", .text "b"] [.text "b", .text "a"] :=
    .down rfl (by decide) (by decide) (by decide) rfl
      (.down rfl (by decide) (by decide) (by decide) rfl .nil)
  have hdir : nested.LeadsTo ⟨[.text "a", .text "b"]⟩ [.text "a", .text "b"] :=
    hleads.leadsTo nested_linkFree rfl ⟨by decide, by decide⟩
  have hsize : (Path.join ⟨[.text "a", .text "b"]⟩ (.text "go.mod")).size < maxPath := by
    decide
  have ha : nested.at? ([] ++ ([] ++ [.text "a"]) ++ [.text "go.mod"]) = none := rfl
  have hb : nested.at? ([] ++ ([.text "a"] ++ [.text "b"]) ++ [.text "go.mod"]) = none := rfl
  have hmodule : NearestModule nested [] [.text "a", .text "b"] "m" :=
    (NearestModule.concat_iff hb).2 ((NearestModule.concat_iff ha).2 (.here nested_named))
  refine ⟨nested_linkFree, nested_modulesNamed, hparent, hdir, hsize, ?_⟩
  refine ((locate_by_tree nested_linkFree nested_modulesNamed hparent hdir hsize).1 _).2
    ⟨[], ["a", "b"], "m", rfl, hmodule, by decide, by decide +kernel, by decide⟩

/-- The search stops at a `..` though the nearest `go.mod` is further up, and no directory
    named `vendor` lies before it. -/
theorem locate_stops_at_parent :
    nested.LinkFree ∧ nested.ModulesNamed ∧
      Path.parent? ⟨[.text "a", .text "b", .text "..", .text "x.go"]⟩ =
        some ⟨[.text "a", .text "b", .text ".."]⟩ ∧
      nested.LeadsTo ⟨[.text "a", .text "b", .text ".."]⟩ [.text "a"] ∧
      NearestModule nested [] [.text "a"] "m" ∧ (∀ s ∈ ["a"], s.toLower ≠ "vendor") ∧
      locate nested ⟨[.text "a", .text "b", .text "..", .text "x.go"]⟩ =
        .error (.moduleNotFound ⟨[.text "a", .text "b", .text "..", .text "x.go"]⟩) := by
  have hparent : Path.parent? ⟨[.text "a", .text "b", .text "..", .text "x.go"]⟩ =
      some ⟨[.text "a", .text "b", .text ".."]⟩ := by decide
  have hleads : Leads nested [] [.text "a", .text "b", .text ".."] [.text "a"] :=
    .down rfl (by decide) (by decide) (by decide) rfl
      (.down rfl (by decide) (by decide) (by decide) rfl (.up rfl .nil))
  have ha : nested.at? ([] ++ ([] ++ [.text "a"]) ++ [.text "go.mod"]) = none := rfl
  have hmodule : NearestModule nested [] [.text "a"] "m" :=
    (NearestModule.concat_iff ha).2 (.here nested_named)
  have hat : SearchedAt nested ⟨[.text "a", .text "b", .text ".."]⟩ [.text "a"] :=
    ⟨hleads, ⟨_, rfl⟩, by decide, by decide⟩
  refine ⟨nested_linkFree, nested_modulesNamed, hparent,
    hleads.leadsTo nested_linkFree rfl ⟨by decide, by decide⟩, hmodule, by decide +kernel, ?_⟩
  rw [locate, hparent]
  exact locateFrom_ends nested_linkFree hat rfl fun s hs => by cases hs

end GoDecls.Files

/-
  Relative paths as walks through the directories of a module.

  * `Leads Stays d ss e`: the steps `ss` lead from the directory `d` to `e`.  Directories
    are the names on the way down from the root; `..` goes to the parent, a step that
    stays does nothing, any other goes down;
  * `Climbs Stays d ss`: a `..` of the walk stands at the root;
  * `leads_or_climbs`, `Climbs.not_leads`: a walk does one of the two;
  * `normalizeRelative_walk`: a relative path is walked so, an empty step being one into
    a directory with an empty name.  Where no step is empty this is the walk on which
    empty steps stay, and no segment of the full name is empty.
-/
import Mathlib.Data.List.Basic
import GoDecls.Batch.Target

namespace GoDecls.Batch

open Model

/-! ## Walks -/

/-- The step to the parent directory. -/
def parentStep : List Char := ['.', '.']

/-- The step is a point. -/
def IsPoint (s : List Char) : Prop := s = ['.']

/-- The step is a point, or empty. -/
def IsPointOrEmpty (s : List Char) : Prop := s = [] ∨ s = ['.']

/-- The steps lead from one directory to another. -/
inductive Leads (Stays : List Char → Prop) :
    List (List Char) → List (List Char) → List (List Char) → Prop
  | done {d : List (List Char)} : Leads Stays d [] d
  | stay {s : List Char} {ss d e : List (List Char)} (hs : Stays s) (h : Leads Stays d ss e) :
    Leads Stays d (s :: ss) e
  | parent {x : List Char} {ss d e : List (List Char)} (h : Leads Stays d ss e) :
    Leads Stays (d ++ [x]) (parentStep :: ss) e
  | down {s : List Char} {ss d e : List (List Char)} (hs : ¬ Stays s) (hne : s ≠ parentStep)
    (h : Leads Stays (d ++ [s]) ss e) : Leads Stays d (s :: ss) e

/-- From the directory the steps lead to the root, and there to its parent. -/
def Climbs (Stays : List Char → Prop) (d ss : List (List Char)) : Prop :=
  ∃ front back, ss = front ++ parentStep :: back ∧ Leads Stays d front []

variable {Stays Stays' : List Char → Prop} {s x : List Char} {ss rest d d' e : List (List Char)}

theorem not_isPoint_parentStep : ¬ IsPoint parentStep := by
  rw [IsPoint]
  decide

theorem leads_nil_iff : Leads Stays d [] e ↔ d = e := by
  constructor
  · rintro ⟨⟩
    rfl
  · rintro rfl
    exact .done

theorem leads_stay_iff (hs : Stays s) (hne : s ≠ parentStep) :
    Leads Stays d (s :: ss) e ↔ Leads Stays d ss e := by
  constructor
  · intro h
    cases h with
    | stay _ h => exact h
    | parent _ => exact absurd rfl hne
    | down hs' _ _ => exact absurd hs hs'
  · exact .stay hs

theorem leads_down_iff (hs : ¬ Stays s) (hne : s ≠ parentStep) :
    Leads Stays d (s :: ss) e ↔ Leads Stays (d ++ [s]) ss e := by
  constructor
  · intro h
    cases h with
    | stay hs' _ => exact absurd hs' hs
    | parent _ => exact absurd rfl hne
    | down _ _ h => exact h
  · exact .down hs hne

/-- What climbs behind a first step climbs. -/
theorem Climbs.cons (h : Climbs Stays d' ss) (hs : ∀ {ss e}, Leads Stays d' ss e →
    Leads Stays d (s :: ss) e) : Climbs Stays d (s :: ss) := by
  obtain ⟨front, back, rfl, hfront⟩ := h
  exact ⟨s :: front, back, rfl, hs hfront⟩

/-- A walk leads somewhere, or it climbs above the root. -/
theorem leads_or_climbs (d ss : List (List Char)) :
    (∃ e, Leads Stays d ss e) ∨ Climbs Stays d ss := by
  induction ss generalizing d with
  | nil => exact .inl ⟨d, .done⟩
  | cons s ss ih =>
    by_cases hs : Stays s
    · exact (ih d).imp (fun ⟨e, h⟩ => ⟨e, .stay hs h⟩) fun h => h.cons (.stay hs)
    by_cases hne : s = parentStep
    · subst hne
      rcases List.eq_nil_or_concat d with rfl | ⟨d, x, rfl⟩
      · exact .inr ⟨[], ss, rfl, .done⟩
      · rw [List.concat_eq_append]
        exact (ih d).imp (fun ⟨e, h⟩ => ⟨e, .parent h⟩) fun h => h.cons .parent
    · exact (ih (d ++ [s])).imp (fun ⟨e, h⟩ => ⟨e, .down hs hne h⟩)
        fun h => h.cons (.down hs hne)

section

variable (hparent : ¬ Stays parentStep)

include hparent

theorem leads_parent_iff : Leads Stays (d ++ [x]) (parentStep :: ss) e ↔ Leads Stays d ss e := by
  constructor
  · intro h
    generalize hd : d ++ [x] = d' at h
    cases h with
    | stay hs _ => exact absurd hs hparent
    | parent h =>
      rw [(List.append_inj' hd rfl).1]
      exact h
    | down _ hne _ => exact absurd rfl hne
  · exact .parent

theorem not_leads_of_root : ¬ Leads Stays [] (parentStep :: ss) e := by
  intro h
  generalize hd : ([] : List (List Char)) = d at h
  cases h with
  | stay hs _ => exact hparent hs
  | parent _ => simp at hd
  | down _ hne _ => exact hne rfl

/-- What is walked behind some steps. -/
theorem Leads.append_iff (h : Leads Stays d ss d') :
    Leads Stays d (ss ++ rest) e ↔ Leads Stays d' rest e := by
  induction h with
  | done => exact .rfl
  | stay hs _ ih =>
    rw [List.cons_append, leads_stay_iff hs (by rintro rfl; exact hparent hs)]
    exact ih
  | parent _ ih =>
    rw [List.cons_append, leads_parent_iff hparent]
    exact ih
  | down hs hne _ ih =>
    rw [List.cons_append, leads_down_iff hs hne]
    exact ih

theorem Climbs.not_leads (h : Climbs Stays d ss) : ¬ Leads Stays d ss e := by
  obtain ⟨front, back, rfl, hfront⟩ := h
  rw [hfront.append_iff hparent]
  exact not_leads_of_root hparent

end

/-- Which steps stay matters for the steps that are walked. -/
theorem Leads.congr (h : Leads Stays d ss e) (hstays : ∀ s ∈ ss, Stays s ↔ Stays' s) :
    Leads Stays' d ss e := by
  induction h with
  | done => exact .done
  | stay hs _ ih =>
    obtain ⟨hfirst, hrest⟩ := List.forall_mem_cons.1 hstays
    exact .stay (hfirst.1 hs) (ih hrest)
  | parent _ ih => exact .parent (ih (List.forall_mem_cons.1 hstays).2)
  | down hs hne _ ih =>
    obtain ⟨hfirst, hrest⟩ := List.forall_mem_cons.1 hstays
    exact .down (fun h => hs (hfirst.2 h)) hne (ih hrest)

theorem leads_congr (hstays : ∀ s ∈ ss, Stays s ↔ Stays' s) :
    Leads Stays d ss e ↔ Leads Stays' d ss e :=
  ⟨fun h => h.congr hstays, fun h => h.congr fun s hs => (hstays s hs).symm⟩

theorem climbs_congr (hstays : ∀ s ∈ ss, Stays s ↔ Stays' s) :
    Climbs Stays d ss ↔ Climbs Stays' d ss := by
  refine exists_congr fun front => exists_congr fun back => and_congr_right ?_
  rintro rfl
  exact leads_congr fun s hs => hstays s (List.mem_append_left _ hs)

/-- A directory is reached by steps that do not stay. -/
theorem Leads.not_stays (h : Leads Stays d ss e) (hd : ∀ x ∈ d, ¬ Stays x) :
    ∀ x ∈ e, ¬ Stays x := by
  induction h with
  | done => exact hd
  | stay _ _ ih => exact ih hd
  | parent _ ih => exact ih fun x hx => hd x (List.mem_append_left _ hx)
  | down hs _ _ ih => exact ih (List.forall_mem_append.2 ⟨hd, List.forall_mem_singleton.2 hs⟩)

/-! ## What is walked -/

section

variable {walked : List (List Char)}

theorem walk?_point (hs : IsPoint s) : walk? walked (s :: ss) = walk? walked ss := by
  rw [walk?.eq_def]
  exact if_pos hs

theorem walk?_root : walk? [] (parentStep :: ss) = none := by
  rw [walk?.eq_def]
  rfl

theorem walk?_parent : walk? (x :: walked) (parentStep :: ss) = walk? walked ss := by
  rw [walk?.eq_def]
  rfl

theorem walk?_down (hs : ¬ IsPoint s) (hne : s ≠ parentStep) :
    walk? walked (s :: ss) = walk? (s :: walked) ss := by
  rw [walk?.eq_def]
  exact (if_neg hs).trans (if_neg hne)

end

/-- **Segments are walked**, those of the directory the last one first. -/
theorem walk?_eq_some_iff : walk? d.reverse ss = some e ↔ Leads IsPoint d ss e := by
  induction ss generalizing d with
  | nil => rw [walk?, List.reverse_reverse, Option.some.injEq, leads_nil_iff]
  | cons s ss ih =>
    by_cases hparent : s = parentStep
    · subst hparent
      rcases List.eq_nil_or_concat d with rfl | ⟨d, x, rfl⟩
      · rw [List.reverse_nil, walk?_root]
        exact iff_of_false nofun (not_leads_of_root not_isPoint_parentStep)
      · rw [List.concat_eq_append, leads_parent_iff not_isPoint_parentStep,
          List.reverse_concat, walk?_parent, ih]
    by_cases hpoint : IsPoint s
    · rw [walk?_point hpoint, leads_stay_iff hpoint hparent, ih]
    · rw [walk?_down hpoint hparent, leads_down_iff hpoint hparent, ← ih, List.reverse_concat]

theorem walk?_eq_none_iff : walk? d.reverse ss = none ↔ Climbs IsPoint d ss := by
  constructor
  · intro h
    refine (leads_or_climbs d ss).resolve_left fun ⟨e, he⟩ => ?_
    rw [walk?_eq_some_iff.2 he] at h
    cases h
  · intro h
    refine Option.eq_none_iff_forall_ne_some.2 fun e he => ?_
    exact h.not_leads not_isPoint_parentStep (walk?_eq_some_iff.1 he)

/-! ## Full names -/

/-- The steps from the root of the module: those to its directory, then those of the
    path. -/
def steps (m : Module) (path : String) : List (List Char) :=
  (if m.subDir = "" then [] else segments m.subDir) ++ segments path

/-- The name and the directories below it, with slashes between. -/
def nameBelow (name : String) (d : List (List Char)) : String := joinSegments (name.toList :: d)

theorem segments_append (a b : String) : segments (a ++ "/" ++ b) = segments a ++ segments b := by
  have htext : (a ++ "/" ++ b).toList = a.toList ++ '/' :: b.toList := by simp
  rw [segments, htext]
  exact List.splitOnP_append_cons _ _ (beq_self_eq_true '/')

theorem segments_eq_steps (m : Module) (path : String) :
    segments (if m.subDir = "" then path else m.subDir ++ "/" ++ path) = steps m path := by
  unfold steps
  split
  · rfl
  · exact segments_append _ _

theorem joinSegments_eq_empty_iff : joinSegments d = "" ↔ d = [] ∨ d = [[]] := by
  rw [← String.toList_inj, joinSegments, String.toList_ofList]
  rcases d with _ | ⟨x, _ | ⟨y, ys⟩⟩ <;> simp [List.intercalate]

theorem nameBelow_nil (name : String) : nameBelow name [] = name := by
  simp [nameBelow, joinSegments, List.intercalate]

theorem nameBelow_of_ne_nil (name : String) (h : d ≠ []) :
    nameBelow name d = name ++ "/" ++ joinSegments d := by
  obtain ⟨x, ys, rfl⟩ := List.exists_cons_of_ne_nil h
  rw [← String.toList_inj]
  simp [nameBelow, joinSegments, List.intercalate]

theorem normalizeRelative_eq (m : Module) (path : String) : normalizeRelative m path =
    (walk? [] (steps m path)).map fun d => if d = [[]] then m.name else nameBelow m.name d := by
  unfold normalizeRelative
  dsimp only
  rw [segments_eq_steps]
  congr 1
  funext d
  by_cases hd : d = []
  · subst hd
    rw [if_pos (joinSegments_eq_empty_iff.2 (.inl rfl)), if_neg (by simp), nameBelow_nil]
  · rw [nameBelow_of_ne_nil _ hd]
    exact if_congr (joinSegments_eq_empty_iff.trans (or_iff_right hd)) rfl rfl

/-- **A relative path is a walk from the root of the module.**  There is no full name iff
    the walk climbs above the root, and otherwise the full name is the name of the module
    and the directories to which the walk leads, with slashes between.  In this an empty
    step goes down to a directory with an empty name, which is not written if it is all
    there is.  If no step is empty, the full name is that of the walk on which empty steps
    stay, and none of its directories has an empty name. -/
theorem normalizeRelative_walk (m : Module) (path : String) :
    (normalizeRelative m path = none ↔ Climbs IsPoint [] (steps m path)) ∧
    (∀ full, normalizeRelative m path = some full ↔ ∃ d, Leads IsPoint [] (steps m path) d ∧
      full = if d = [[]] then m.name else nameBelow m.name d) ∧
    ((∀ s ∈ steps m path, s ≠ []) →
      (normalizeRelative m path = none ↔ Climbs IsPointOrEmpty [] (steps m path)) ∧
      ∀ full, normalizeRelative m path = some full ↔ ∃ d,
        Leads IsPointOrEmpty [] (steps m path) d ∧ [] ∉ d ∧ full = nameBelow m.name d) := by
  have hnone : normalizeRelative m path = none ↔ Climbs IsPoint [] (steps m path) := by
    rw [normalizeRelative_eq, Option.map_eq_none_iff, ← walk?_eq_none_iff, List.reverse_nil]
  have hsome : ∀ full, normalizeRelative m path = some full ↔ ∃ d,
      Leads IsPoint [] (steps m path) d ∧
        full = if d = [[]] then m.name else nameBelow m.name d := by
    intro full
    rw [normalizeRelative_eq, Option.map_eq_some_iff]
    refine exists_congr fun d => and_congr ?_ eq_comm
    rw [← walk?_eq_some_iff, List.reverse_nil]
  refine ⟨hnone, hsome, fun hsteps => ?_⟩
  have hstays : ∀ s ∈ steps m path, IsPoint s ↔ IsPointOrEmpty s := fun s hs =>
    (or_iff_right (hsteps s hs)).symm
  refine ⟨hnone.trans (climbs_congr hstays), fun full => (hsome full).trans ?_⟩
  refine exists_congr fun d => ?_
  rw [leads_congr hstays]
  refine and_congr_right fun hd => ?_
  have hempty : [] ∉ d := fun h => hd.not_stays nofun [] h (.inl rfl)
  rw [if_neg (by rintro rfl; exact hempty List.mem_cons_self)]
  exact (and_iff_right hempty).symm

/-- The parent of what is behind a doubled slash: the empty step is taken back in place of
    the directory, in which the path would have stayed. -/
theorem normalizeRelative_doubled_slash :
    normalizeRelative ⟨"m", ""⟩ "./a//../b" = some "m/a/b" ∧
      Leads IsPointOrEmpty [] (steps ⟨"m", ""⟩ "./a//../b") [['b']] ∧
      nameBelow "m" [['b']] = "m/b" := by
  have hsteps : steps ⟨"m", ""⟩ "./a//../b" = [['.'], ['a'], [], parentStep, ['b']] := by
    decide +kernel
  refine ⟨by decide +kernel, ?_, by decide +kernel⟩
  rw [hsteps]
  have hdown : ∀ c, c ≠ '.' → ¬ IsPointOrEmpty [c] := by simp [IsPointOrEmpty]
  have hback : Leads IsPointOrEmpty [['a']] [parentStep, ['b']] [['b']] :=
    .parent (d := []) (.down (hdown _ (by decide)) (by decide) .done)
  exact .stay (.inr rfl) (.down (hdown _ (by decide)) (by decide) (.stay (.inl rfl) hback))

end GoDecls.Batch

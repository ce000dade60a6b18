/-
  Lists of parameters and results: what is written in them and what is read.

  * `FieldList.WrittenAs ts l ps`: among the tokens stands the list, with the entries
    `ps` between its parentheses.  An entry is a bare name, or a type that a name and
    `...` may precede;
  * `Resolves ps fs`: the fields that the entries stand for.  If no entry has both a
    name and a type, each is a type; else the entries form groups (`Groups`), bare
    names and the entry with a type behind them, and each group is a field;
  * `Stranded ps`: an entry that is nothing but a type has no bare name before it;
  * `SourceFile.lists_resolved`: in an accepted text every list is resolved so.  Fields
    with and without names stand in one list just if an entry has both a name and a
    type and another is stranded.
-/
import Mathlib.Data.List.Forall2
import GoDecls.Proofs.Tree.EchoTypes
import GoDecls.Proofs.Tree.SoundFile

namespace GoDecls.Tree

open Outcome

/-! ## Entries as they are written -/

/-- The tokens are the name, or there is none. -/
inductive NameAt : List Lexeme → Option Ident → Prop where
  | none : NameAt [] none
  | some {l : Lexeme} {s : String} (h : l.token = .ident s) : NameAt [l] (some ⟨s, l.span⟩)

/-- The tokens are `...`, or there is none. -/
inductive EllipsisAt : List Lexeme → Option Span → Prop where
  | none : EllipsisAt [] none
  | some {l : Lexeme} (h : l.token = .punct .ellipsis) : EllipsisAt [l] (some l.span)

/-- The tokens are read as the type. -/
def TypeExpr.ReadFrom (ls : List Lexeme) (T : TypeExpr) : Prop :=
  ∃ c d m, Cursor.type c = .ok T d m ∧ c.rest = ls ++ d.rest

/-- The tokens are the entry. -/
inductive Param.Written : List Lexeme → Param → Prop where
  | bare {l : Lexeme} {s : String} (h : l.token = .ident s) : Written [l] (.bare ⟨s, l.span⟩)
  | typed {front dots ls : List Lexeme} {span : Span} {name : Option Ident}
      {ellipsis : Option Span} {type : TypeExpr} (hname : NameAt front name)
      (hellipsis : EllipsisAt dots ellipsis) (htype : type.ReadFrom ls) :
      Written (front ++ (dots ++ ls)) (.typed span name ellipsis type)

/-- The tokens are the entries with commas between, and perhaps one behind the last. -/
inductive Entries : List Lexeme → List Param → Prop where
  | nil : Entries [] []
  | last {ls : List Lexeme} {p : Param} (h : p.Written ls) : Entries ls [p]
  | more {ls ls' : List Lexeme} {comma : Lexeme} {p : Param} {ps : List Param}
      (h : p.Written ls) (hcomma : comma.token = .punct .comma) (rest : Entries ls' ps) :
      Entries (ls ++ comma :: ls') (p :: ps)

/-- Among the tokens the list stands with these entries. -/
def FieldList.WrittenAs (ts : List Lexeme) (l : FieldList) (ps : List Param) : Prop :=
  ∃ front lparen body rparen back, ts = front ++ lparen :: (body ++ rparen :: back) ∧
    (lparen.token = .punct .lparen ∧ lparen.span = l.lparen) ∧ Entries body ps ∧
    (rparen.token = .punct .rparen ∧ rparen.span = l.rparen)

namespace Cursor

variable {c d : Cursor}

theorem rest_of_expect {t : Token} {what : String} {span : Span} {m : d.left < c.left}
    (h : c.expect t what = .ok span d m) :
    ∃ l, c.rest = l :: d.rest ∧ l.token = t ∧ l.span = span := by
  unfold expect at h
  split at h
  · next ht =>
    cases h
    exact rest_of_token? ht
  · cases h

theorem rest_of_ident {what : String} {i : Ident} {m : d.left < c.left}
    (h : c.ident what = .ok i d m) :
    ∃ l, c.rest = l :: d.rest ∧ l.token = .ident i.text ∧ l.span = i.span := by
  unfold ident at h
  split at h
  · next ht =>
    cases h
    exact rest_of_token? ht
  · cases h

theorem rest_of_type {T : TypeExpr} {m : d.left < c.left} (h : c.type = .ok T d m) :
    ∃ ls, c.rest = ls ++ d.rest ∧ T.ReadFrom ls := by
  obtain ⟨ts, -, -, -, -, -, -, hp, -⟩ :=
    type_echo (k := False) c c (.of_tokens rfl) (.inl rfl) T d m h (Nat.zero_le _)
  have hrest : c.rest = c.rest.take ts.length ++ d.rest := by
    rw [hp.skip, skip_rest, List.take_append_drop]
  exact ⟨_, hrest, c, d, m, h, hrest⟩

theorem rest_of_paramType {p : Option Span × TypeExpr} {m : d.left < c.left}
    (h : c.paramType = .ok p d m) : ∃ dots ls, c.rest = dots ++ (ls ++ d.rest) ∧
      EllipsisAt dots p.1 ∧ p.2.ReadFrom ls := by
  rw [paramType] at h
  split at h
  · next ht =>
    obtain ⟨T, hT, rfl⟩ := ok_of_map h
    obtain ⟨m', hT⟩ := ok_of_lift hT
    obtain ⟨l, hrest, htoken, hspan⟩ := rest_of_token? ht
    obtain ⟨ls, hls, hread⟩ := rest_of_type hT
    exact ⟨[l], ls, by rw [hrest, hls]; rfl, hspan ▸ .some htoken, hread⟩
  · obtain ⟨T, hT, rfl⟩ := ok_of_map h
    obtain ⟨ls, hls, hread⟩ := rest_of_type hT
    exact ⟨[], ls, hls, .none, hread⟩

/-- An entry that is read is written. -/
theorem written_of_param {p : Param} {m : d.left < c.left} (h : c.param = .ok p d m) :
    ∃ ls, c.rest = ls ++ d.rest ∧ p.Written ls := by
  rw [param] at h
  split at h
  · obtain ⟨name, hname, rfl⟩ := ok_of_map h
    obtain ⟨l, hrest, htoken, hspan⟩ := rest_of_ident hname
    have hwritten := Param.Written.bare htoken
    rw [hspan] at hwritten
    exact ⟨[l], hrest, hwritten⟩
  · split at h
    · obtain ⟨name, e, m₁, m₂, hname, h⟩ := ok_of_bind h
      obtain ⟨type, htype, rfl⟩ := ok_of_map h
      obtain ⟨l, hrest, htoken, hspan⟩ := rest_of_ident hname
      obtain ⟨dots, ls, hls, hdots, hread⟩ := rest_of_paramType htype
      have hwritten := NameAt.some htoken
      rw [hspan] at hwritten
      exact ⟨l :: (dots ++ ls), by rw [hrest, hls]; simp, .typed hwritten hdots hread⟩
    · obtain ⟨type, htype, rfl⟩ := ok_of_map h
      obtain ⟨dots, ls, hls, hdots, hread⟩ := rest_of_paramType htype
      exact ⟨dots ++ ls, by rw [hls]; simp, .typed .none hdots hread⟩

/-- Entries that are read are written up to the parenthesis. -/
theorem entries_of_params (c : Cursor) {d : Cursor} {ps : List Param × Span} {m : d.left < c.left}
    (h : c.params = .ok ps d m) : ∃ body l, c.rest = body ++ l :: d.rest ∧
      Entries body ps.1 ∧ l.token = .punct .rparen ∧ l.span = ps.2 := by
  rw [params] at h
  split at h
  · next ht =>
    cases h
    obtain ⟨l, hrest, htoken, hspan⟩ := rest_of_token? ht
    exact ⟨[], l, hrest, .nil, htoken, hspan⟩
  · obtain ⟨p, e, m₁, m₂, hp, h⟩ := ok_of_bind h
    obtain ⟨ls, hls, hwritten⟩ := written_of_param hp
    split at h
    · next ht =>
      obtain ⟨qs, hqs, rfl⟩ := ok_of_map h
      obtain ⟨m₃, hqs⟩ := ok_of_lift hqs
      have hlt : e.advance.left < c.left := Nat.lt_of_le_of_lt e.advance_le m₁
      obtain ⟨body, l, hrest, hentries, htoken, hspan⟩ := entries_of_params e.advance hqs
      obtain ⟨comma, hcomma, hctoken, -⟩ := rest_of_token? ht
      exact ⟨ls ++ comma :: body, l, by rw [hls, hcomma, hrest]; simp,
        .more hwritten hctoken hentries, htoken, hspan⟩
    · obtain ⟨rparen, hrparen, rfl⟩ := ok_of_map h
      obtain ⟨l, hrest, htoken, hspan⟩ := rest_of_expect hrparen
      exact ⟨ls, l, by rw [hls, hrest], .last hwritten, htoken, hspan⟩
termination_by c.left

/-- A list that is read is written, and its fields are those of the entries. -/
theorem writtenAs_of_fieldList {ts : List Lexeme} (hc : c.rest <:+ ts) {l : FieldList}
    {m : d.left < c.left} (h : c.fieldList = .ok l d m) :
    ∃ ps, l.WrittenAs ts ps ∧ Param.toFields ps = .ok l.fields := by
  rw [fieldList] at h
  obtain ⟨lparen, e, m₁, m₂, hlparen, h⟩ := ok_of_bind h
  obtain ⟨ps, f, m₃, hps, h⟩ := ok_of_andThen h
  split at h
  · next fields hfields =>
    cases h
    obtain ⟨lp, hlp, hltoken, hlspan⟩ := rest_of_expect hlparen
    obtain ⟨body, rp, hrp, hentries, hrtoken, hrspan⟩ := entries_of_params e hps
    obtain ⟨front, rfl⟩ := hc
    refine ⟨ps.1, ⟨front, lp, body, rp, d.rest, ?_, ⟨hltoken, hlspan⟩, hentries,
      hrtoken, hrspan⟩, hfields⟩
    rw [hlp, hrp]
  · cases h

end Cursor

/-! ## Entries and their fields -/

/-- The entry is nothing but a name. -/
def Param.isBare : Param → Bool
  | .bare _ => true
  | .typed _ _ _ _ => false

/-- The entry stands for a field without names, of which it is the type. -/
inductive Param.Alone : Param → Field → Prop where
  | bare {name : Ident} {f : Field} (names : f.names = []) (ellipsis : f.ellipsis = none)
      (type : f.type = .named name.span none name []) : Alone (.bare name) f
  | typed {span : Span} {name : Option Ident} {e : Option Span} {T : TypeExpr} {f : Field}
      (names : f.names = []) (ellipsis : f.ellipsis = e) (type : f.type = T) :
      Alone (.typed span name e T) f

/-- The entries are groups, each of them bare names and an entry with a type, and each
    group is a field: its names are the bare ones and the one before the type. -/
inductive Groups : List Param → List Field → Prop where
  | nil : Groups [] []
  | group {names : List Ident} {span : Span} {name : Option Ident} {ellipsis : Option Span}
      {type : TypeExpr} {f : Field} {ps : List Param} {fs : List Field}
      (hnames : f.names = names ++ name.toList) (hellipsis : f.ellipsis = ellipsis)
      (htype : f.type = type) (rest : Groups ps fs) :
      Groups (names.map .bare ++ .typed span name ellipsis type :: ps) (f :: fs)

/-- The fields that the entries of a list stand for. -/
inductive Resolves (ps : List Param) (fs : List Field) : Prop where
  | types (h : ∀ p ∈ ps, p.isNamed = false) (hfields : List.Forall₂ Param.Alone ps fs)
  | groups (h : ∃ p ∈ ps, p.isNamed = true) (hfields : Groups ps fs)

/-- An entry that is nothing but a type stands in front, or behind another one with a
    type: no bare name goes with it. -/
def Stranded (ps : List Param) : Prop :=
  ∃ front span ellipsis type back, ps = front ++ .typed span none ellipsis type :: back ∧
    ∀ p ∈ front.getLast?, p.isBare = false

/-- All fields have names, or none has. -/
def Alike (fs : List Field) : Prop := (∀ f ∈ fs, f.names = []) ∨ ∀ f ∈ fs, f.names ≠ []

variable {ps : List Param} {fs : List Field}

theorem Param.groups_of_toNamed : ∀ {ps : List Param} {pending : List Ident} {fs : List Field},
    Param.toNamed pending ps = .ok fs → Groups (pending.map .bare ++ ps) fs
  | [], pending, fs, h => by
    rw [toNamed] at h
    split at h
    · next hlast =>
      cases h
      rw [List.getLast?_eq_none_iff.1 hlast]
      exact .nil
    · cases h
  | .bare name :: ps, pending, fs, h => by
    have hgroups : Groups ((pending ++ [name]).map .bare ++ ps) fs := groups_of_toNamed h
    rwa [List.map_append, List.append_assoc] at hgroups
  | .typed span name ellipsis type :: ps, pending, fs, h => by
    rw [toNamed] at h
    cases hmore : toNamed [] ps with
    | error e =>
      rw [hmore] at h
      cases h
    | ok more =>
      rw [hmore] at h
      cases h
      exact .group rfl rfl rfl (groups_of_toNamed hmore)

theorem Param.resolves_of_toFields (h : Param.toFields ps = .ok fs) : Resolves ps fs := by
  unfold toFields at h
  split at h
  · next hnamed => exact .groups (List.any_eq_true.1 hnamed) (groups_of_toNamed h)
  · next hnone =>
    cases h
    refine .types (fun p hp => ?_) ?_
    · rw [Bool.not_eq_true, List.any_eq_false] at hnone
      simpa using hnone p hp
    · rw [List.forall₂_map_right_iff]
      refine List.forall₂_same.2 fun p _ => ?_
      cases p with
      | bare name => exact .bare rfl rfl rfl
      | typed span name ellipsis type => exact .typed rfl rfl rfl

/-- An entry with a name gives a field with names. -/
theorem Groups.exists_names (h : Groups ps fs) {p : Param} (hp : p ∈ ps) (hn : p.isNamed = true) :
    ∃ f ∈ fs, f.names ≠ [] := by
  induction h with
  | nil => cases hp
  | @group names span name ellipsis type f ps fs hnames _ _ _ ih =>
    rcases List.mem_append.1 hp with hp | hp
    · obtain ⟨i, -, rfl⟩ := List.mem_map.1 hp
      cases hn
    · rcases List.mem_cons.1 hp with rfl | hp
      · cases name with
        | none => cases hn
        | some i => exact ⟨f, List.mem_cons_self, by simp [hnames]⟩
      · obtain ⟨g, hg, hne⟩ := ih hp
        exact ⟨g, List.mem_cons_of_mem f hg, hne⟩

theorem Groups.stranded (h : Groups ps fs) {f : Field} (hf : f ∈ fs) (hnames : f.names = []) :
    Stranded ps := by
  induction h with
  | nil => cases hf
  | @group names span name ellipsis type g ps fs hg _ _ _ ih =>
    rcases List.mem_cons.1 hf with rfl | hf
    · obtain ⟨rfl, hname⟩ := List.append_eq_nil_iff.1 (hg.symm.trans hnames)
      obtain rfl : name = none := Option.toList_eq_nil_iff.1 hname
      exact ⟨[], span, ellipsis, type, ps, rfl, nofun⟩
    · obtain ⟨front, span', ellipsis', type', back, rfl, hlast⟩ := ih hf
      refine ⟨names.map .bare ++ .typed span name ellipsis type :: front, span', ellipsis',
        type', back, by simp, ?_⟩
      intro p hp
      rw [List.getLast?_append_cons, List.getLast?_cons] at hp
      cases hfront : front.getLast? with
      | none =>
        rw [hfront] at hp
        cases hp
        rfl
      | some q =>
        rw [hfront] at hp
        cases hp
        exact hlast q hfront

theorem eq_nil_of_last {names : List Ident}
    (h : ∀ p ∈ (names.map Param.bare).getLast?, p.isBare = false) : names = [] := by
  rcases List.eq_nil_or_concat names with hnil | ⟨is, i, rfl⟩
  · exact hnil
  · cases h (.bare i) (by simp)

/-- A stranded entry is a field without names. -/
theorem Groups.exists_of_stranded (h : Groups ps fs) (hs : Stranded ps) :
    ∃ f ∈ fs, f.names = [] := by
  obtain ⟨front, span', ellipsis', type', back, hps, hlast⟩ := hs
  induction h generalizing front with
  | nil => simp at hps
  | @group names span name ellipsis type f ps fs hnames _ _ _ ih =>
    rcases List.append_eq_append_iff.1 hps with ⟨mid, rfl, hmid⟩ | ⟨mid, hbare, hmid⟩
    · cases mid with
      | nil =>
        -- the group's own entry is the stranded one
        cases hmid
        have hnil : names = [] := eq_nil_of_last (by simpa using hlast)
        exact ⟨f, List.mem_cons_self, by rw [hnames, hnil]; rfl⟩
      | cons q mid =>
        cases hmid
        obtain ⟨g, hg, hnone⟩ := ih mid rfl fun p hp => hlast p (by
          rw [List.getLast?_append_cons, List.getLast?_cons, Option.mem_def.1 hp]
          rfl)
        exact ⟨g, List.mem_cons_of_mem f hg, hnone⟩
    · cases mid with
      | nil =>
        cases hmid
        rw [List.append_nil] at hbare
        have hnil : names = [] := eq_nil_of_last (hbare ▸ hlast)
        exact ⟨f, List.mem_cons_self, by rw [hnames, hnil]; rfl⟩
      | cons q mid =>
        cases hmid
        have hmem : Param.typed span' none ellipsis' type' ∈ names.map Param.bare := by
          rw [hbare]
          simp
        obtain ⟨i, -, hi⟩ := List.mem_map.1 hmem
        cases hi

/-- A list has fields with names and without just if an entry has both a name and a
    type and another is stranded. -/
theorem Resolves.not_alike_iff (h : Resolves ps fs) :
    ¬ Alike fs ↔ (∃ p ∈ ps, p.isNamed = true) ∧ Stranded ps := by
  cases h with
  | types hnone hfields =>
    have hnames : ∀ f ∈ fs, f.names = [] := by
      clear hnone
      induction hfields with
      | nil => exact List.forall_mem_nil _
      | cons hp _ ih =>
        refine List.forall_mem_cons.2 ⟨?_, ih⟩
        cases hp <;> assumption
    refine iff_of_false (fun h => h (.inl hnames)) ?_
    rintro ⟨⟨p, hp, hn⟩, -⟩
    rw [hnone p hp] at hn
    cases hn
  | groups hnamed hfields =>
    obtain ⟨p, hp, hn⟩ := hnamed
    obtain ⟨f, hf, hne⟩ := hfields.exists_names hp hn
    constructor
    · intro hmixed
      refine ⟨⟨p, hp, hn⟩, ?_⟩
      by_contra hs
      exact hmixed (.inr fun g hg hnone => hs (hfields.stranded hg hnone))
    · rintro ⟨-, hs⟩
      obtain ⟨g, hg, hnone⟩ := hfields.exists_of_stranded hs
      rintro (hall | hall)
      · exact hne (hall f hf)
      · exact hall g hg hnone

/-! ## Lists of a text -/

/-- **Every list of an accepted text is resolved.**  Its entries are those between its
    parentheses.  If none of them has both a name and a type, each is a type.
    Otherwise the names of a field are the bare names right before the entry with its
    type and the name in that entry; a field is left without a name just if its entry
    is stranded. -/
theorem SourceFile.lists_resolved {text : List Char} {file : SourceFile}
    (h : SourceFile.ofText text = .ok file) :
    ∀ d ∈ file.decls, ∀ T ∈ d.parts, T.Everywhere fun S => ∀ l ∈ S.lists,
      ∃ ps, l.WrittenAs (Lexer.ofText text).run.1 ps ∧ Resolves ps l.fields ∧
        (¬ Alike l.fields ↔ (∃ p ∈ ps, p.isNamed = true) ∧ Stranded ps) := by
  refine SourceFile.lists_ofText (fun c hc l d m hl => ?_) h
  obtain ⟨ps, hwritten, hfields⟩ := Cursor.writtenAs_of_fieldList hc hl
  have hresolves := Param.resolves_of_toFields hfields
  exact ⟨ps, hwritten, hresolves, hresolves.not_alike_iff⟩

/-- A function with two names for one type and a variadic parameter, and results that
    are types. -/
theorem SourceFile.lists_resolved_func :
    let text := "package p\ntype F func(a, b int, c ...T) (map[K]V, error)\n".toList
    ∃ file, SourceFile.ofText text = .ok file ∧
      ((file.decls.flatMap Decl.parts).flatMap TypeExpr.lists).map
        (fun l => l.fields.map (·.names.map (·.text))) = [[["a", "b"], ["c"]], [[], []]] ∧
      ∀ d ∈ file.decls, ∀ T ∈ d.parts, T.Everywhere fun S => ∀ l ∈ S.lists,
        ∃ ps, l.WrittenAs (Lexer.ofText text).run.1 ps ∧ Resolves ps l.fields ∧
          (¬ Alike l.fields ↔ (∃ p ∈ ps, p.isNamed = true) ∧ Stranded ps) := by
  intro text
  have hshape : (SourceFile.ofText text).toOption.map (fun file =>
      ((file.decls.flatMap Decl.parts).flatMap TypeExpr.lists).map
        (fun l => l.fields.map (·.names.map (·.text)))) = some [[["a", "b"], ["c"]], [[], []]] := by
    decide +kernel
  cases hfile : SourceFile.ofText text with
  | error e =>
    rw [hfile] at hshape
    cases hshape
  | ok file =>
    rw [hfile] at hshape
    exact ⟨file, rfl, Option.some.inj hshape, SourceFile.lists_resolved hfile⟩

/-- `func(a int, *T)` is read with one parameter that has a name and one without. -/
theorem SourceFile.lists_mixed :
    ∃ file, SourceFile.ofText "package p\ntype F func(a int, *T)\n".toList = .ok file ∧
      ((file.decls.flatMap Decl.parts).flatMap TypeExpr.lists).map
        (fun l => l.fields.map (·.names.map (·.text))) = [[["a"], []]] := by
  have hshape : (SourceFile.ofText "package p\ntype F func(a int, *T)\n".toList).toOption.map
      (fun file => ((file.decls.flatMap Decl.parts).flatMap TypeExpr.lists).map
        (fun l => l.fields.map (·.names.map (·.text)))) = some [[["a"], []]] := by
    decide +kernel
  cases hfile : SourceFile.ofText "package p\ntype F func(a int, *T)\n".toList with
  | error e =>
    rw [hfile] at hshape
    cases hshape
  | ok file =>
    rw [hfile] at hshape
    exact ⟨file, rfl, Option.some.inj hshape⟩

end GoDecls.Tree

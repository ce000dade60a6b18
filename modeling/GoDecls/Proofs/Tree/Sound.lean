/-
  What holds of the types that are read from a text.

  * `Grounded text ts`: the tokens stand in the text, and their names are names;
  * `Outcome.Ensures ts P o`: a value that comes of `o` has `P`, and what is left
    behind it is a rest of the tokens.  There is one rule for each way of putting
    readers together;
  * `TypeExpr.Sound text T`: in the type every name is one, and the text under every
    array length can be read, at any depth;
  * `TypeExpr.SoundWith text L T`: besides, all lists of parameters and results have
    the property `L`.
-/
import GoDecls.Proofs.Token.Pieces
import GoDecls.Proofs.Tree.Everywhere
import GoDecls.Proofs.Tree.Loops
import GoDecls.Proofs.Tree.Reading
import GoDecls.Tree.Types

namespace GoDecls.Tree

open Scan

/-- There is a text under the span, unless the text is too long for its spans. -/
def HasText (text : List Char) (span : Span) : Prop :=
  Text.byteLength text ≤ Span.limit → (span.text? text).isSome = true

/-- The tokens stand in the text: their names are names, and there is a text under
    the stretch from one token to another. -/
structure Grounded (text : List Char) (ts : List Lexeme) : Prop where
  name : ∀ l ∈ ts, ∀ s, l.token = .ident s → IsName s.toList
  stretch : ∀ ls, ls <:+: ts → ls ≠ [] → HasText text (stretch ls)

variable {text : List Char} {ts : List Lexeme}

/-! ## Values that are ensured -/

namespace Outcome

variable {α β : Type} {c d : Cursor} {P : α → Prop} {Q : β → Prop}

/-- A value that comes of it has `P`, and a rest of the tokens is left behind it. -/
def Ensures (ts : List Lexeme) (P : α → Prop) (o : Outcome α c) : Prop :=
  ∀ a d m, o = .ok a d m → P a ∧ d.rest <:+ ts

namespace Ensures

theorem ok {a : α} {m : d.left < c.left} (ha : P a) (hd : d.rest <:+ ts) :
    (Outcome.ok a d m : Outcome α c).Ensures ts P := by
  rintro _ _ _ ⟨⟩
  exact ⟨ha, hd⟩

theorem error {f : Diagnostic} {k : d.left ≤ c.left} :
    (Outcome.error f d k : Outcome α c).Ensures ts P := nofun

theorem lift {o : Outcome α d} {k : d.left ≤ c.left} (h : o.Ensures ts P) :
    (o.lift k).Ensures ts P := by
  cases o with
  | ok a e m => exact ok (h a e m rfl).1 (h a e m rfl).2
  | error f e k => exact error

theorem after {o : Outcome α d} {m : d.left < c.left} (h : o.Ensures ts P) :
    (o.after m).Ensures ts P :=
  h.lift

theorem andThen {o : Outcome α c} {f : (a : α) → (d : Cursor) → d.left < c.left → Outcome β c}
    (h : o.Ensures ts P) (hf : ∀ a d m, P a → d.rest <:+ ts → (f a d m).Ensures ts Q) :
    (o.andThen f).Ensures ts Q := by
  cases o with
  | ok a d m => exact hf a d m (h a d m rfl).1 (h a d m rfl).2
  | error f e k => exact error

theorem bind {o : Outcome α c} {f : (a : α) → (d : Cursor) → d.left < c.left → Outcome β d}
    (h : o.Ensures ts P) (hf : ∀ a d m, P a → d.rest <:+ ts → (f a d m).Ensures ts Q) :
    (o.bind f).Ensures ts Q :=
  h.andThen fun a d m ha hd => (hf a d m ha hd).after

theorem map {o : Outcome α c} {f : α → Cursor → β} (h : o.Ensures ts P)
    (hf : ∀ a d, P a → Q (f a d)) : (o.map f).Ensures ts Q :=
  h.andThen fun a d _ ha hd => ok (hf a d ha) hd

theorem and {P' : α → Prop} {o : Outcome α c} (h : o.Ensures ts P)
    (h' : ∀ a d m, o = .ok a d m → P' a) : o.Ensures ts fun a => P a ∧ P' a :=
  fun a d m ho => ⟨⟨(h a d m ho).1, h' a d m ho⟩, (h a d m ho).2⟩

end Ensures

end Outcome

/-! ## Single tokens -/

namespace Cursor

open Outcome

variable {c : Cursor} {t : Token}

theorem suffix_advance (hc : c.rest <:+ ts) : c.advance.rest <:+ ts := by
  rw [advance_rest]
  exact (List.tail_suffix _).trans hc

theorem suffix_skip (hc : c.rest <:+ ts) (n : Nat) : (c.skip n).rest <:+ ts := by
  rw [skip_rest]
  exact (List.drop_suffix _ _).trans hc

theorem suffix_tag? (hc : c.rest <:+ ts) : c.tag?.2.rest <:+ ts := by
  unfold tag?
  split
  · exact suffix_advance hc
  · exact hc

/-- The token at the cursor is the first of those that are left. -/
theorem rest_of_token? (h : c.token? = some t) :
    ∃ l, c.rest = l :: c.advance.rest ∧ l.token = t ∧ l.span = c.span := by
  unfold token? at h
  rw [advance_rest]
  unfold span
  cases hrest : c.rest with
  | nil =>
    rw [hrest] at h
    cases h
  | cons l ls =>
    rw [hrest] at h
    exact ⟨l, rfl, Option.some.inj h, rfl⟩

theorem mem_of_token? (hc : c.rest <:+ ts) (h : c.token? = some t) :
    ∃ l ∈ ts, l.token = t ∧ l.span = c.span := by
  obtain ⟨l, hrest, htoken, hspan⟩ := rest_of_token? h
  exact ⟨l, hc.subset (hrest ▸ List.mem_cons_self), htoken, hspan⟩

theorem fails_ensures {α : Type} {P : α → Prop} (what : String) :
    (c.fails what : Outcome α c).Ensures ts P := .error

theorem expect_ensures (hc : c.rest <:+ ts) (t : Token) (what : String) :
    (c.expect t what).Ensures ts fun _ => True := by
  unfold expect
  split
  · exact .ok trivial (suffix_advance hc)
  · exact fails_ensures what

/-- What items ensure, a list ensures of all its items. -/
theorem ListLoop.ensures {α β : Type} {S : ListShape α β} {item : (c : Cursor) → Outcome α c}
    {loop : (c : Cursor) → Outcome β c} {P : α → Prop} (hloop : ListLoop S item loop) (c : Cursor)
    (hc : c.rest <:+ ts)
    (hitem : ∀ d : Cursor, d.left ≤ c.left → d.rest <:+ ts → (item d).Ensures ts P) :
    (loop c).Ensures ts fun b => ∀ a ∈ S.items b, P a := by
  intro b d m h
  refine hloop.induct (Q := fun e b d => e.rest <:+ ts → (∀ a ∈ S.items b, P a) ∧ d.rest <:+ ts) c h
    (fun _ he => ⟨?_, suffix_advance he⟩) (fun _ hmore he => hmore (suffix_advance he))
    (fun hle ha hmore he => ?_) hc
  · rw [S.items_nil]
    exact List.forall_mem_nil _
  · obtain ⟨hPa, hf⟩ := hitem _ hle he _ _ _ ha
    obtain ⟨hb, hd⟩ := hmore hf
    rw [S.items_cons]
    exact ⟨List.forall_mem_cons.2 ⟨hPa, hb⟩, hd⟩

theorem ident_ensures (hts : Grounded text ts) (hc : c.rest <:+ ts) (what : String) :
    (c.ident what).Ensures ts fun i => IsName i.text.toList := by
  unfold ident
  split
  · next s hs =>
    obtain ⟨l, hl, htoken, -⟩ := mem_of_token? hc hs
    exact .ok (hts.name l hl s htoken) (suffix_advance hc)
  · exact fails_ensures what

theorem names_ensures (hts : Grounded text ts) {c : Cursor} (hc : c.rest <:+ ts) (what : String) :
    (c.names what).Ensures ts fun is => ∀ i ∈ is, IsName i.text.toList := by
  rw [names]
  refine (ident_ensures hts hc what).andThen fun name d m hname hd => ?_
  split
  · have hmore := names_ensures hts (suffix_advance hd) what
    exact hmore.lift.after.map fun more _ hm => List.forall_mem_cons.2 ⟨hname, hm⟩
  · exact .ok (List.forall_mem_singleton.2 hname) hd
termination_by c.left
decreasing_by exact Nat.lt_of_le_of_lt d.advance_le m

theorem qualified_ensures (hts : Grounded text ts) (hc : c.rest <:+ ts) :
    c.qualified.Ensures ts fun p => (∀ i ∈ p.1, IsName i.text.toList) ∧ IsName p.2.text.toList := by
  rw [qualified]
  refine (ident_ensures hts hc _).andThen fun first d m hfirst hd => ?_
  split
  · refine (ident_ensures hts (suffix_advance hd) _).lift.after.map fun name _ hname => ⟨?_, hname⟩
    rintro _ ⟨⟩
    exact hfirst
  · exact .ok ⟨nofun, hfirst⟩ hd

end Cursor

/-! ## Sound types -/

/-- The text under the length can be read, if it is asked for. -/
def ArrayLength.Readable (text : List Char) : ArrayLength → Prop
  | .expr span (.literal _) | .expr span .other => HasText text span
  | _ => True

theorem ArrayLength.readable_expr {span : Span} (h : HasText text span) (e : LengthExpr) :
    (ArrayLength.expr span e).Readable text := by
  cases e with
  | ident name => trivial
  | selector pkg name => trivial
  | literal kind => exact h
  | other => exact h

/-- The names of the type itself are names, and its length can be read. -/
def TypeExpr.SoundHere (text : List Char) : TypeExpr → Prop
  | .named _ pkg name _ => (∀ i ∈ pkg, IsName i.text.toList) ∧ IsName name.text.toList
  | .array _ length _ => length.Readable text
  | _ => True

/-- In the type every name is one, and every array length can be read. -/
def TypeExpr.Sound (text : List Char) (T : TypeExpr) : Prop := T.Everywhere (·.SoundHere text)

/-! ## Lists in a type -/

/-- The lists in parentheses of results. -/
def Results.lists : Results → List FieldList
  | .list fields => [fields]
  | _ => []

/-- The lists in parentheses of a signature. -/
def Signature.lists (s : Signature) : List FieldList := s.params :: s.results.lists

/-- The lists in parentheses of a member. -/
def InterfaceElem.lists : InterfaceElem → List FieldList
  | .method _ sig => sig.lists
  | .union _ => []

/-- The lists of parameters and results of the type itself. -/
def TypeExpr.lists : TypeExpr → List FieldList
  | .interface _ elems => elems.flatMap (·.lists)
  | .func _ sig => sig.lists
  | _ => []

/-- The type is sound, and all lists of parameters and results in it have the
    property. -/
def TypeExpr.SoundWith (text : List Char) (L : FieldList → Prop) (T : TypeExpr) : Prop :=
  T.Everywhere fun S => S.SoundHere text ∧ ∀ l ∈ S.lists, L l

/-- A type without lists is sound if its parts are. -/
theorem TypeExpr.SoundWith.plain {L : FieldList → Prop} {T : TypeExpr} (here : T.SoundHere text)
    (hlists : T.lists = []) (below : ∀ S ∈ T.parts, S.SoundWith text L) : T.SoundWith text L :=
  .intro ⟨here, hlists ▸ List.forall_mem_nil _⟩ below

/-- What the type has that an entry of a list stands for if it has no name. -/
theorem Param.forall_toNamed {Q : TypeExpr → Prop} :
    ∀ {ps : List Param} {pending : List Ident} {fs : List Field},
    (∀ p ∈ ps, Q p.toAnonymous.type) → Param.toNamed pending ps = .ok fs → ∀ f ∈ fs, Q f.type
  | [], pending, fs, _, h => by
    rw [toNamed] at h
    split at h
    · cases h
      exact nofun
    · cases h
  | .bare name :: ps, pending, fs, hps, h =>
    forall_toNamed (fun p hp => hps p (List.mem_cons_of_mem _ hp)) h
  | .typed _ _ _ type :: ps, pending, fs, hps, h => by
    obtain ⟨hfirst, hrest⟩ := List.forall_mem_cons.1 hps
    rw [toNamed] at h
    cases hmore : toNamed [] ps with
    | error e =>
      rw [hmore] at h
      cases h
    | ok more =>
      rw [hmore] at h
      cases h
      exact List.forall_mem_cons.2 ⟨hfirst, forall_toNamed hrest hmore⟩

theorem Param.forall_toFields {Q : TypeExpr → Prop} {ps : List Param} {fs : List Field}
    (hps : ∀ p ∈ ps, Q p.toAnonymous.type) (h : Param.toFields ps = .ok fs) :
    ∀ f ∈ fs, Q f.type := by
  unfold toFields at h
  split at h
  · exact forall_toNamed hps h
  · cases h
    intro f hf
    obtain ⟨p, hp, rfl⟩ := List.mem_map.1 hf
    exact hps p hp

namespace Cursor

open Outcome

variable {c : Cursor}

theorem arrayLength_ensures (hts : Grounded text ts) (hc : c.rest <:+ ts) :
    c.arrayLength.Ensures ts (·.Readable text) := by
  unfold arrayLength
  split
  · exact .error
  · next n _ =>
    split
    · exact fails_ensures _
    · next h =>
      refine .ok ?_ (suffix_skip hc n)
      have hne : c.rest.take n ≠ [] := fun hnil => by
        have hlength := congrArg List.length hnil
        rw [List.length_take, List.length_nil] at hlength
        unfold left at h
        omega
      have hstretch := hts.stretch _ ((List.take_prefix _ _).isInfix.trans hc.isInfix) hne
      exact ArrayLength.readable_expr hstretch _

end Cursor

end GoDecls.Tree

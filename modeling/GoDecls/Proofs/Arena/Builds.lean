/-
  A reader with a store next to the same reader without one.

  `Builds L o o'` says that the two do the same on the text, and that what the first
  gives stands in its store for what the second gives.  Each way of putting readers
  together keeps this, so that one reader after the other can be settled by going
  along its own definition.
-/
import GoDecls.Proofs.Arena.Stands

namespace GoDecls.Arena

open Tree Store

variable {α β γ δ ε : Type} {s t : Store} {L : Ledger s} {c d : Cursor}

/-- The first outcome, read into the store, stands there for the second. -/
inductive Builds [Stored β α] (L : Ledger s) : Outcome (β × Store) c → Outcome α c → Prop
  | ok {r : β × Store} {a : α} {d : Cursor} {m : d.left < c.left} (h : Lays L a r) :
      Builds L (.ok r d m) (.ok a d m)
  | error {f : Diagnostic} {d : Cursor} {k : d.left ≤ c.left} :
      Builds L (.error f d k) (.error f d k)

namespace Builds

variable [Stored β α] [Stored γ δ]

/-- What is read into a later store is read behind what was added before. -/
theorem before {L' : Ledger t} {o : Outcome (β × Store) c} {o' : Outcome α c}
    (h : Builds L' o o') (g : L.Grows L') : Builds L o o' := by
  cases h with
  | ok h =>
    obtain ⟨L'', g', hr⟩ := h
    exact .ok ⟨L'', g.trans g', hr⟩
  | error => exact .error

theorem fails {what : String} : Builds L (c.fails what : Outcome (β × Store) c) (c.fails what) :=
  .error

theorem lift {o : Outcome (β × Store) d} {o' : Outcome α d} (h : Builds L o o')
    (k : d.left ≤ c.left) : Builds L (o.lift k) (o'.lift k) := by
  cases h with
  | ok h => exact .ok h
  | error => exact .error

theorem after {o : Outcome (β × Store) d} {o' : Outcome α d} (h : Builds L o o')
    (m : d.left < c.left) : Builds L (o.after m) (o'.after m) := h.lift _

/-! ## One reader after another -/

theorem andThen {o : Outcome (β × Store) c} {o' : Outcome α c}
    {f : (r : β × Store) → (d : Cursor) → d.left < c.left → Outcome (γ × Store) c}
    {f' : (a : α) → (d : Cursor) → d.left < c.left → Outcome δ c} (h : Builds L o o')
    (hf : ∀ r a d m (L' : Ledger r.2), L.Grows L' → StandsFor L' r.1 a →
      Builds L' (f r d m) (f' a d m)) : Builds L (o.andThen f) (o'.andThen f') := by
  cases h with
  | ok h =>
    obtain ⟨L', g, hr⟩ := h
    exact (hf _ _ _ _ L' g hr).before g
  | error => exact .error

theorem bind {o : Outcome (β × Store) c} {o' : Outcome α c}
    {f : (r : β × Store) → (d : Cursor) → d.left < c.left → Outcome (γ × Store) d}
    {f' : (a : α) → (d : Cursor) → d.left < c.left → Outcome δ d} (h : Builds L o o')
    (hf : ∀ r a d m (L' : Ledger r.2), L.Grows L' → StandsFor L' r.1 a →
      Builds L' (f r d m) (f' a d m)) : Builds L (o.bind f) (o'.bind f') :=
  h.andThen fun r a d m L' g hr => (hf r a d m L' g hr).after m

theorem map {o : Outcome (β × Store) c} {o' : Outcome α c} {f : β × Store → Cursor → γ × Store}
    {f' : α → Cursor → δ} (h : Builds L o o')
    (hf : ∀ r a d (L' : Ledger r.2), L.Grows L' → StandsFor L' r.1 a → Lays L' (f' a d) (f r d)) :
    Builds L (o.map f) (o'.map f') :=
  h.andThen fun r a d _ L' g hr => .ok (hf r a d L' g hr)

/-! ## What both read alike -/

theorem sameThen (o : Outcome ε c)
    {f : ε → (d : Cursor) → d.left < c.left → Outcome (γ × Store) c}
    {f' : ε → (d : Cursor) → d.left < c.left → Outcome δ c}
    (hf : ∀ e d m, Builds L (f e d m) (f' e d m)) : Builds L (o.andThen f) (o.andThen f') := by
  cases o with
  | ok e d m => exact hf e d m
  | error f d k => exact .error

theorem sameBind (o : Outcome ε c)
    {f : ε → (d : Cursor) → d.left < c.left → Outcome (γ × Store) d}
    {f' : ε → (d : Cursor) → d.left < c.left → Outcome δ d}
    (hf : ∀ e d m, Builds L (f e d m) (f' e d m)) : Builds L (o.bind f) (o.bind f') :=
  sameThen o fun e d m => (hf e d m).after m

theorem sameMap (o : Outcome ε c) {f : ε → Cursor → γ × Store} {f' : ε → Cursor → δ}
    (hf : ∀ e d, Lays L (f' e d) (f e d)) : Builds L (o.map f) (o.map f') :=
  sameThen o fun e d _ => .ok (hf e d)

end Builds

/-- Something is laid down before reading goes on. -/
theorem Lays.builds [Stored β α] [Stored γ δ] {a : α} {r : β × Store}
    {o : Outcome (γ × Store) c} {o' : Outcome δ c} (h : Lays L a r)
    (ho : ∀ L' : Ledger r.2, L.Grows L' → StandsFor L' r.1 a → Builds L' o o') : Builds L o o' := by
  obtain ⟨L', g, hr⟩ := h
  exact (ho L' g hr).before g

end GoDecls.Arena

/-
  Reading of tokens from a cursor, and what comes of it.

  A reader at a cursor gives an `Outcome`: a value and the cursor behind it,
  which has moved on, or a diagnostic and the cursor where it arose, which has
  not moved back.  Both facts are part of the outcome, so that readers may call
  each other on what is left.
-/
import GoDecls.Diagnostic
import GoDecls.Tree.Basic

namespace GoDecls.Tree

/-- A place among the tokens of a text: the tokens that are left, the end of the
    last one read that has extent, and the size of the text. -/
structure Cursor where
  rest : List Lexeme
  last : Nat
  size : Nat
deriving Repr

namespace Cursor

/-- The number of tokens that are left. -/
def left (c : Cursor) : Nat := c.rest.length

/-- The token at the cursor. -/
def token? (c : Cursor) : Option Token := c.rest.head?.map (·.token)

/-- The token behind the one at the cursor. -/
def second? (c : Cursor) : Option Token := c.rest.tail.head?.map (·.token)

/-- The stretch of the token at the cursor, or the end of the text. -/
def span (c : Cursor) : Span :=
  match c.rest with
  | [] => .ofOffsets c.size c.size
  | l :: _ => l.span

/-- Where the token at the cursor begins. -/
def start (c : Cursor) : Nat := c.span.start

/-- The stretch from `start` to the end of the last token read. -/
def spanFrom (c : Cursor) (start : Nat) : Span := .ofOffsets start (max c.last start)

/-- The cursor behind the token. -/
def advance (c : Cursor) : Cursor :=
  match c.rest with
  | [] => c
  | l :: ls => { c with rest := ls, last := if l.span.isEmpty then c.last else l.span.stop }

/-- The cursor behind the next `n` tokens. -/
def skip (c : Cursor) : Nat → Cursor
  | 0 => c
  | n + 1 => c.advance.skip n

/-- What stands at the cursor, for a message. -/
def found (c : Cursor) : Found :=
  match c.rest with
  | [] => .endOfFile
  | l :: _ =>
    if l.token = .punct .semi ∧ l.span.isEmpty then .newline else .token l.token

/-- The diagnostic that something else should stand at the cursor. -/
def unexpected (c : Cursor) (what : String) : Diagnostic :=
  ⟨c.span, .parse (.expected what c.found)⟩

theorem left_advance (c : Cursor) : c.advance.left = c.left - 1 := by
  unfold advance left; split <;> simp_all

theorem left_skip (c : Cursor) (n : Nat) : (c.skip n).left = c.left - n := by
  induction n generalizing c with
  | zero => rfl
  | succ n ih => rw [skip, ih, left_advance]; omega

theorem left_pos {c : Cursor} {t : Token} (h : c.token? = some t) : 0 < c.left := by
  unfold token? at h
  unfold left
  cases hr : c.rest with
  | nil => simp [hr] at h
  | cons _ _ => simp

theorem advance_le (c : Cursor) : c.advance.left ≤ c.left := by
  rw [left_advance]; omega

theorem skip_le (c : Cursor) (n : Nat) : (c.skip n).left ≤ c.left := by
  rw [left_skip]; omega

/-- Past a token there is less left. -/
theorem advance_lt {c : Cursor} {t : Token} (h : c.token? = some t) : c.advance.left < c.left := by
  have := left_pos h
  rw [left_advance]; omega

end Cursor

/-! ## Outcomes -/

/-- What comes of reading at a cursor. -/
inductive Outcome (α : Type) (c : Cursor) where
  | ok (value : α) (next : Cursor) (moved : next.left < c.left)
  | error (fault : Diagnostic) (stop : Cursor) (kept : stop.left ≤ c.left)

namespace Outcome

variable {α β : Type} {c d : Cursor}

/-- An outcome seen from a cursor that is no further on. -/
def lift (h : d.left ≤ c.left) : Outcome α d → Outcome α c
  | .ok a e m => .ok a e (Nat.lt_of_lt_of_le m h)
  | .error f e k => .error f e (Nat.le_trans k h)

/-- An outcome seen from a cursor that is further back. -/
def after (m : d.left < c.left) (o : Outcome α d) : Outcome α c := o.lift (Nat.le_of_lt m)

/-- Reads on from where the value ends. -/
def andThen (o : Outcome α c) (f : (a : α) → (d : Cursor) → d.left < c.left → Outcome β c) :
    Outcome β c :=
  match o with
  | .ok a d m => f a d m
  | .error f e k => .error f e k

/-- Reads on from where the value ends, at least one token more. -/
def bind (o : Outcome α c) (f : (a : α) → (d : Cursor) → d.left < c.left → Outcome β d) :
    Outcome β c :=
  o.andThen fun a d m => (f a d m).after m

/-- Makes another value of the value and of where it ends. -/
def map (f : α → Cursor → β) (o : Outcome α c) : Outcome β c :=
  o.andThen fun a d m => .ok (f a d) d m

end Outcome

/-! ## Single tokens -/

namespace Cursor

/-- Something else should stand at the cursor. -/
def fails {α : Type} (c : Cursor) (what : String) : Outcome α c :=
  .error (c.unexpected what) c (Nat.le_refl _)

/-- Reads the token that must stand here. -/
def expect (c : Cursor) (t : Token) (what : String) : Outcome Span c :=
  if h : c.token? = some t then .ok c.span c.advance (advance_lt h)
  else c.fails what

/-- Reads a name. -/
def ident (c : Cursor) (what : String) : Outcome Ident c :=
  match h : c.token? with
  | some (.ident s) => .ok ⟨s, c.span⟩ c.advance (advance_lt h)
  | _ => c.fails what

/-- Reads names with commas between. -/
def names (c : Cursor) (what : String) : Outcome (List Ident) c :=
  (c.ident what).andThen fun name d m =>
    if d.token? = some (.punct .comma) then
      (((d.advance.names what).lift d.advance_le).after m).map
        fun more _ => name :: more
    else .ok [name] d m
termination_by c.left
decreasing_by exact Nat.lt_of_le_of_lt d.advance_le m

end Cursor

end GoDecls.Tree

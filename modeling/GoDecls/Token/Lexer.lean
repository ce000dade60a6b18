/-
  The lexer: a text is read piece by piece into tokens, comments and lexical
  diagnostics.

  Its state is what is left of the text, the offset of that, whether the last
  token may end a statement, and the comments and diagnostics not yet taken.
  A line end after a token that may end a statement, bare or inside a block
  comment, gives a semicolon without extent, and so does the end of the text.

  * `Lexer.next` is the next token, and `none` from the end of the text on;
  * `Lexer.run` are all tokens that are left; each token takes something off the
    text or settles the semicolon at its end (`next_decreases`).
-/
import GoDecls.Comment.Basic
import GoDecls.Token.Scan

namespace GoDecls

/-- A text in the course of being read. -/
structure Lexer where
  rest : List Char
  pos : Nat
  canEnd : Bool
  comments : List Comment
  diagnostics : List Diagnostic
deriving Repr

namespace Lexer

open Scan

/-- The lexer at the front of a text. -/
def ofText (text : List Char) : Lexer := ⟨text, 0, false, [], []⟩

/-- The number of bytes before the first character that ends a line. -/
def lineEndOffset? (cs : List Char) : Option Nat :=
  (cs.findIdx? isLineEnd).map fun n => Text.byteLength (cs.take n)

/-- The token of a name: a keyword if there is one spelled so. -/
def wordToken (cs : List Char) : Token :=
  match Keyword.ofText? (String.ofList cs) with
  | some k => .keyword k
  | none => .ident (String.ofList cs)

/-- The semicolon at `at_` if one is due, and the lexer that has settled it. -/
def settle (l : Lexer) (at_ : Option Nat) : Option Lexeme × Lexer :=
  match l.canEnd, at_ with
  | true, some pos => (some (.inserted pos), { l with canEnd := false })
  | _, _ => (none, l)

/-- A token that reaches up to where the lexer stands. -/
def emit (l : Lexer) (start : Nat) (t : Token) : Option Lexeme × Lexer :=
  (some ⟨start, t, l.pos⟩, { l with canEnd := t.endsStatement })

/-- A comment that reaches up to where the lexer stands. -/
def note (l : Lexer) (start : Nat) (kind : CommentKind) : Lexer :=
  { l with comments := l.comments ++ [⟨kind, .ofOffsets start l.pos⟩] }

/-- What is no token, up to where the lexer stands. -/
def reject (l : Lexer) (start : Nat) (fault : LexFault) : Option Lexeme × Lexer :=
  emit { l with diagnostics := l.diagnostics ++ [⟨.ofOffsets start l.pos, .lex fault⟩] } start .error

/-- Reads the piece at `c`, behind which `cs` is left of the text. -/
def read (l : Lexer) (c : Char) (cs : List Char) : Option Lexeme × Lexer :=
  let piece := scan c cs
  let text := c :: cs.take piece.2
  let start := l.pos
  let l := { l with rest := cs.drop piece.2, pos := l.pos + Text.byteLength text }
  match piece.1 with
  | .blank => (none, l)
  | .lineEnd => l.settle (some start)
  | .orderMark => if start = 0 then (none, l) else l.reject start .invalidToken
  | .lineComment => (none, l.note start .line)
  | .blockComment true => (l.note start .block).settle ((lineEndOffset? text).map (start + ·))
  | .blockComment false => (l.note start .block).reject start .unterminatedComment
  | .word => l.emit start (wordToken text)
  | .number => l.emit start (.number (numberKind text) (String.ofList text))
  | .rune => l.emit start (.rune (String.ofList text))
  | .string => l.emit start (.string (String.ofList text))
  | .rawString => l.emit start (.rawString (String.ofList text))
  | .punct p => l.emit start (.punct p)
  | .stray => l.reject start (strayFault c)

@[simp] theorem settle_rest (l : Lexer) (p : Option Nat) : (l.settle p).2.rest = l.rest := by
  unfold settle; split <;> rfl

@[simp] theorem emit_rest (l : Lexer) (s : Nat) (t : Token) : (l.emit s t).2.rest = l.rest := rfl

@[simp] theorem note_rest (l : Lexer) (s : Nat) (k : CommentKind) : (l.note s k).rest = l.rest := rfl

@[simp] theorem reject_rest (l : Lexer) (s : Nat) (f : LexFault) :
    (l.reject s f).2.rest = l.rest := rfl

/-- Reading takes the piece off the text. -/
theorem read_rest (l : Lexer) (c : Char) (cs : List Char) :
    (l.read c cs).2.rest = cs.drop (scan c cs).2 := by
  simp only [read]
  split <;> simp
  split <;> simp

/-- The next token and the lexer behind it. -/
def next (l : Lexer) : Option Lexeme × Lexer :=
  match _hl : l.rest with
  | [] => l.settle (some l.pos)
  | c :: cs =>
    match _hr : l.read c cs with
    | (some t, l') => (some t, l')
    | (none, l') => l'.next
termination_by l.rest.length
decreasing_by
  have h := l.read_rest c cs
  simp only [_hr] at h
  simp only [h, _hl, List.length_drop, List.length_cons]
  omega

/-- What a token takes away: text, or the semicolon at its end. -/
def weight (l : Lexer) : Nat := 2 * l.rest.length + l.canEnd.toNat

/-- Every token takes something away. -/
theorem next_decreases {l l' : Lexer} {t : Lexeme} (h : l.next = (some t, l')) :
    l'.weight < l.weight := by
  fun_induction next l with
  | case1 l hl =>
    unfold settle at h
    split at h
    · obtain ⟨_, rfl⟩ := Prod.mk.inj h
      simp_all [weight]
    · simp at h
  | case2 l c cs hl t' l'' hr =>
    have := l.read_rest c cs
    simp only [hr] at this
    have hb : l''.canEnd.toNat ≤ 1 := Bool.toNat_le _
    simp only [Prod.mk.injEq] at h
    simp only [weight, ← h.2, this, hl, List.length_drop, List.length_cons]
    omega
  | case3 l c cs hl l'' hr ih =>
    have := l.read_rest c cs
    simp only [hr] at this
    have hb : l''.canEnd.toNat ≤ 1 := Bool.toNat_le _
    have := ih h
    simp only [weight, hl, List.length_cons] at this ⊢
    simp_all only [List.length_drop]
    omega

/-- All tokens that are left, and the lexer at the end of the text. -/
def run (l : Lexer) : List Lexeme × Lexer :=
  match _h : l.next with
  | (none, l') => ([], l')
  | (some t, l') =>
    let (ts, last) := l'.run
    (t :: ts, last)
termination_by l.weight
decreasing_by exact next_decreases _h

/-- Hands out the comments read so far. -/
def takeComments (l : Lexer) : List Comment × Lexer :=
  (l.comments, { l with comments := [] })

/-- Hands out the diagnostics so far. -/
def takeDiagnostics (l : Lexer) : List Diagnostic × Lexer :=
  (l.diagnostics, { l with diagnostics := [] })

end Lexer

end GoDecls

/-
  The tokens that a run makes of the segments of a text, the semicolons at line ends
  included.

  * `lexemes due ss`: the tokens of the segments, if a semicolon is due before them or
    not, and whether one is due behind them;
  * `run_eq_lexemes`: these are the tokens of a run, up to the semicolon at its end;
  * `lexemes_shift`: tokens further on in a text are the same, as many bytes further on.
-/
import GoDecls.Proofs.Token.Segments

namespace GoDecls

open Scan Text

/-- The tokens of a segment, and whether a semicolon is due behind it. -/
def Segment.lexemes (due : Bool) (s : Segment) : List Lexeme × Bool :=
  match s.lexeme?, due, s.lineEnd? with
  | some t, _, _ => ([t], t.token.endsStatement)
  | none, true, some pos => ([.inserted pos], false)
  | none, _, _ => ([], due)

/-- The tokens of segments, and whether a semicolon is due behind them. -/
def lexemes (due : Bool) : List Segment → List Lexeme × Bool
  | [] => ([], due)
  | s :: ss =>
    ((s.lexemes due).1 ++ (lexemes (s.lexemes due).2 ss).1, (lexemes (s.lexemes due).2 ss).2)

/-- The semicolon at the end of a text, if one is due. -/
def lastLexeme (due : Bool) (pos : Nat) : List Lexeme := if due then [.inserted pos] else []

section

variable {due : Bool} {s : Segment} {ss ss' : List Segment} {l : Lexeme}

/-- Before a token it does not matter whether a semicolon is due. -/
theorem Segment.lexemes_of_lexeme? (h : s.lexeme? = some l) (due : Bool) :
    s.lexemes due = ([l], l.token.endsStatement) := by
  unfold Segment.lexemes
  split <;> simp_all

theorem lexemes_append (due : Bool) (ss ss' : List Segment) : lexemes due (ss ++ ss') =
    ((lexemes due ss).1 ++ (lexemes (lexemes due ss).2 ss').1,
      (lexemes (lexemes due ss).2 ss').2) := by
  induction ss generalizing due with
  | nil => rfl
  | cons s ss ih =>
    rw [List.cons_append, lexemes, ih, lexemes, List.append_assoc]

theorem lexemes_cons_of_lexeme? (h : s.lexeme? = some l) (due : Bool) : lexemes due (s :: ss) =
    (l :: (lexemes l.token.endsStatement ss).1, (lexemes l.token.endsStatement ss).2) := by
  rw [lexemes, Segment.lexemes_of_lexeme? h]
  rfl

end

namespace Lexer

theorem read_lexemes (l : Lexer) (c : Char) (cs : List Char) :
    ((l.read c cs).1.toList, (l.read c cs).2.canEnd) =
      (Segment.front l.pos c cs).lexemes l.canEnd := by
  rw [read_eq]
  unfold Segment.lexemes
  cases (Segment.front l.pos c cs).lexeme? with
  | some t => rfl
  | none =>
    cases (Segment.front l.pos c cs).lineEnd? with
    | none =>
      rw [settle_none]
      simp [behind]
    | some p =>
      have hcanEnd : (l.behind c cs).canEnd = l.canEnd := rfl
      obtain ⟨htoken, hdue⟩ := (l.behind c cs).settle_eq p
      rw [htoken, hdue, hcanEnd]
      cases l.canEnd <;> rfl

/-- **The tokens of a run** are those of its segments. -/
theorem run_eq_lexemes (l : Lexer) : l.run.1 =
    (lexemes l.canEnd (segments l.pos l.rest)).1 ++
      lastLexeme (lexemes l.canEnd (segments l.pos l.rest)).2 (l.pos + byteLength l.rest) := by
  induction l using induction_on with
  | nil l h =>
    rw [run_of_nil h, h, segments, byteLength_nil, Nat.add_zero]
    rfl
  | piece l c cs h ih =>
    have hend : (l.read c cs).2.pos + byteLength (l.read c cs).2.rest =
        l.pos + byteLength l.rest := by
      rw [read_pos, read_rest, h, Nat.add_assoc, ← byteLength_append, List.cons_append,
        List.take_append_drop]
    rw [run_of_cons h, ih, segments_of_cons h, lexemes, hend, ← l.read_lexemes c cs,
      List.append_assoc]

end Lexer

/-! ## Further on in a text -/

/-- The segment as many bytes further on. -/
def Segment.shift (k : Nat) (s : Segment) : Segment := { s with start := s.start + k }

/-- The token as many bytes further on. -/
def Lexeme.shift (k : Nat) (l : Lexeme) : Lexeme := ⟨l.start + k, l.token, l.stop + k⟩

section

variable {due : Bool} {s : Segment} {ss : List Segment} {k : Nat}

theorem segments_shift (pos k : Nat) (cs : List Char) :
    segments (pos + k) cs = (segments pos cs).map (Segment.shift k) := by
  fun_induction segments pos cs with
  | case1 => rw [segments]; rfl
  | case2 pos c cs ih =>
    have hstop : (Segment.front (pos + k) c cs).stop = (Segment.front pos c cs).stop + k := by
      simp only [Segment.front, Segment.stop, Segment.text]
      omega
    rw [segments, hstop, ih]
    rfl

theorem Segment.stop_shift (s : Segment) (k : Nat) : (s.shift k).stop = s.stop + k := by
  simp only [Segment.stop, Segment.shift, Segment.text]
  omega

/-- A byte order mark is at fault but at the front of a text. -/
theorem Segment.fault?_shift (h : s.start ≠ 0) : (s.shift k).fault? = s.fault? := by
  have hk : s.start + k ≠ 0 := by omega
  simp only [Segment.fault?, Segment.shift, h, hk, if_false]

theorem Segment.token?_shift (h : s.start ≠ 0) : (s.shift k).token? = s.token? := by
  rw [Segment.token?, fault?_shift h]
  rfl

theorem Segment.lexeme?_shift (h : s.start ≠ 0) :
    (s.shift k).lexeme? = s.lexeme?.map (Lexeme.shift k) := by
  rw [Segment.lexeme?, Segment.lexeme?, token?_shift h, Segment.stop_shift, Option.map_map]
  rfl

theorem Segment.lineEnd?_shift : (s.shift k).lineEnd? = s.lineEnd?.map (· + k) := by
  unfold Segment.lineEnd? Segment.shift
  dsimp only
  split
  · rfl
  · rw [Option.map_map]
    change Option.map _ (Lexer.lineEndOffset? s.text) = _
    congr 1
    funext n
    exact Nat.add_right_comm _ _ _
  · rfl

theorem Segment.lexemes_shift (h : s.start ≠ 0) (due : Bool) : (s.shift k).lexemes due =
    ((s.lexemes due).1.map (Lexeme.shift k), (s.lexemes due).2) := by
  unfold Segment.lexemes
  rw [lexeme?_shift h, lineEnd?_shift]
  cases s.lexeme? with
  | some t => rfl
  | none =>
    cases due with
    | false => rfl
    | true => cases s.lineEnd? <;> rfl

theorem lexemes_shift (h : ∀ s ∈ ss, s.start ≠ 0) (due : Bool) :
    lexemes due (ss.map (Segment.shift k)) =
      ((lexemes due ss).1.map (Lexeme.shift k), (lexemes due ss).2) := by
  induction ss generalizing due with
  | nil => rfl
  | cons s ss ih =>
    rw [List.map_cons, lexemes, Segment.lexemes_shift (h s List.mem_cons_self),
      ih fun s' hs' => h s' (List.mem_cons_of_mem s hs'), lexemes, List.map_append]

theorem lastLexeme_shift (due : Bool) (pos k : Nat) :
    lastLexeme due (pos + k) = (lastLexeme due pos).map (Lexeme.shift k) := by
  unfold lastLexeme
  split <;> rfl

end

end GoDecls

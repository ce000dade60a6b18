/-
  Texts of tokens, blanks and line ends.

  * `Plain due pos cs ts`: such a text `cs` at byte `pos` has the tokens `ts`, where
    `due` says that the token before may end a statement;
  * `run_space`, `run_lineEnd` and `run_token`: a run is a run behind the first
    blank, line end or token, with what that gives;
  * `Plain.run`: the lexer reads these tokens, no comment and no fault.
-/
import GoDecls.Proofs.Token.Beginnings
import GoDecls.Proofs.Token.Segments

namespace GoDecls

open Scan Text

/-- A text of tokens, blanks and line ends, and its tokens. -/
inductive Plain : (due : Bool) → Nat → List Char → List Lexeme → Prop where
  | done {pos : Nat} : Plain false pos [] []
  | atEnd {pos : Nat} : Plain true pos [] [.inserted pos]
  | space {due : Bool} {pos : Nat} {c : Char} {cs : List Char} {ts : List Lexeme}
    (hc : isSpace c = true) (h : Plain due (pos + c.utf8Size) cs ts) : Plain due pos (c :: cs) ts
  | lineEnd {due : Bool} {pos : Nat} {c : Char} {cs : List Char} {ts : List Lexeme}
    (hc : isLineEnd c = true) (h : Plain false (pos + c.utf8Size) cs ts) :
    Plain due pos (c :: cs) ((if due then [.inserted pos] else []) ++ ts)
  | token {due : Bool} {pos : Nat} {c : Char} {t r : List Char} {k : Piece} {tok : Token}
    {ts : List Lexeme} (hscan : scan c (t ++ r) = (k, t.length)) (htok : k.token? (c :: t) = some tok)
    (h : Plain tok.endsStatement (pos + byteLength (c :: t)) r ts) :
    Plain due pos (c :: (t ++ r)) (⟨pos, tok, pos + byteLength (c :: t)⟩ :: ts)

namespace Lexer

variable {l l' : Lexer} {c : Char} {cs t r : List Char}

/-- The lexer behind a part that has `size` bytes. -/
def moved (l : Lexer) (cs : List Char) (size : Nat) (due : Bool) : Lexer :=
  { l with rest := cs, pos := l.pos + size, canEnd := due }

theorem moved_moved {ds : List Char} {n m : Nat} {due due' : Bool} :
    (l.moved cs n due).moved ds m due' = l.moved ds (n + m) due' := by
  simp only [moved, Nat.add_assoc]

/-- A piece that gives nothing may be passed over. -/
theorem run_eq_of_read (h : l.rest = c :: cs) (hr : l.read c cs = (none, l')) : l.run = l'.run := by
  have htokens := run_of_cons h
  have hlast := run_last_of_cons h
  rw [hr] at htokens hlast
  exact Prod.ext htokens hlast

theorem scan_space (hc : isSpace c = true) :
    scan c cs = (.blank, (cs.takeWhile isSpace).length) := by
  rw [scan, if_pos hc]

theorem read_space (hc : isSpace c = true) : l.read c cs =
    (none, l.moved (cs.dropWhile isSpace) (byteLength (c :: cs.takeWhile isSpace)) l.canEnd) := by
  have htake : cs.take (cs.takeWhile isSpace).length = cs.takeWhile isSpace :=
    (List.prefix_iff_eq_take.1 (List.takeWhile_prefix _)).symm
  have hsplit : cs = cs.takeWhile isSpace ++ cs.dropWhile isSpace :=
    List.takeWhile_append_dropWhile.symm
  have hdrop : cs.drop (cs.takeWhile isSpace).length = cs.dropWhile isSpace :=
    (congrArg (List.drop _) hsplit).trans List.drop_left
  simp only [read, scan_space hc, htake, hdrop]
  rfl

/-- A blank may be passed over. -/
theorem run_space (h : l.rest = c :: cs) (hc : isSpace c = true) :
    l.run = (l.moved cs c.utf8Size l.canEnd).run := by
  rw [run_eq_of_read h (read_space hc)]
  cases cs with
  | nil => rfl
  | cons d ds =>
    cases hd : isSpace d with
    | false =>
      rw [List.dropWhile_cons_of_neg (by simp [hd]), List.takeWhile_cons_of_neg (by simp [hd])]
      rfl
    | true =>
      -- the run of blanks from `d` on ends where the one from `c` on does
      have hnext := run_eq_of_read (l := l.moved (d :: ds) c.utf8Size l.canEnd) rfl (read_space hd)
      rw [hnext, moved_moved, List.dropWhile_cons_of_pos hd, List.takeWhile_cons_of_pos hd]
      rfl

theorem settle_some (l : Lexer) (p : Nat) : l.settle (some p) =
    (if l.canEnd then some (.inserted p) else none, { l with canEnd := false }) := by
  obtain ⟨rest, pos, canEnd, comments, diagnostics⟩ := l
  cases canEnd <;> rfl

theorem run_of_read_lineEnd {size : Nat} (h : l.rest = c :: cs)
    (hr : l.read c cs = (if l.canEnd then some (.inserted l.pos) else none, l.moved t size false)) :
    l.run = ((if l.canEnd then [.inserted l.pos] else []) ++ (l.moved t size false).run.1,
      (l.moved t size false).run.2) := by
  refine Prod.ext ?_ ?_
  · rw [run_of_cons h, hr]
    cases l.canEnd <;> rfl
  · rw [run_last_of_cons h, hr]

/-- A line end may be passed over, once the semicolon is settled. -/
theorem run_lineEnd (h : l.rest = c :: cs) (hc : isLineEnd c = true) :
    l.run = ((if l.canEnd then [.inserted l.pos] else []) ++ (l.moved cs c.utf8Size false).run.1,
      (l.moved cs c.utf8Size false).run.2) := by
  simp only [isLineEnd, Bool.or_eq_true, beq_iff_eq] at hc
  rcases hc with rfl | rfl
  · have hscan : scan '\n' cs = (.lineEnd, 0) := rfl
    refine run_of_read_lineEnd h ?_
    simp only [read, hscan, settle_some, List.take_zero, List.drop_zero]
    rfl
  · have hscan : scan '\r' cs = (.lineEnd, if cs.head? = some '\n' then 1 else 0) := rfl
    by_cases hfeed : cs.head? = some '\n'
    · obtain ⟨ds, rfl⟩ := List.head?_eq_some_iff.1 hfeed
      rw [if_pos hfeed] at hscan
      have hr : l.read '\r' ('\n' :: ds) =
          (if l.canEnd then some (.inserted l.pos) else none, l.moved ds 2 false) := by
        simp only [read, hscan, settle_some]
        rfl
      -- the line feed behind the carriage return settles nothing more
      have hfeed : (l.moved ('\n' :: ds) 1 false).run = (l.moved ds 2 false).run := by
        refine run_eq_of_read rfl ?_
        have hscan : scan '\n' ds = (.lineEnd, 0) := rfl
        simp only [read, hscan, settle_some]
        rfl
      rw [run_of_read_lineEnd h hr, ← hfeed]
      rfl
    · rw [if_neg hfeed] at hscan
      refine run_of_read_lineEnd h ?_
      simp only [read, hscan, settle_some, List.take_zero, List.drop_zero]
      rfl

/-- A token is read where the scanner finds it. -/
theorem read_token {k : Piece} {tok : Token} (hscan : scan c (t ++ r) = (k, t.length))
    (htok : k.token? (c :: t) = some tok) : l.read c (t ++ r) =
      (some ⟨l.pos, tok, l.pos + byteLength (c :: t)⟩,
        l.moved r (byteLength (c :: t)) tok.endsStatement) := by
  cases k <;> simp only [Piece.token?, reduceCtorEq, Option.some.injEq] at htok <;> subst htok <;>
    simp only [read, hscan, List.take_left, List.drop_left, emit] <;> rfl

/-- A token is the first of a run. -/
theorem run_token {k : Piece} {tok : Token} (h : l.rest = c :: (t ++ r))
    (hscan : scan c (t ++ r) = (k, t.length)) (htok : k.token? (c :: t) = some tok) :
    l.run = (⟨l.pos, tok, l.pos + byteLength (c :: t)⟩ ::
        (l.moved r (byteLength (c :: t)) tok.endsStatement).run.1,
      (l.moved r (byteLength (c :: t)) tok.endsStatement).run.2) := by
  refine Prod.ext ?_ ?_
  · rw [run_of_cons h, read_token hscan htok]
    rfl
  · rw [run_last_of_cons h, read_token hscan htok]

end Lexer

variable {due : Bool} {pos : Nat} {cs : List Char} {ts : List Lexeme}

/-- **A plain text is read as it says**, without a comment or fault. -/
theorem Plain.run (h : Plain due pos cs ts) : ∀ (l : Lexer), l.canEnd = due → l.pos = pos →
    l.rest = cs → l.run.1 = ts ∧ l.run.2.comments = l.comments ∧
      l.run.2.diagnostics = l.diagnostics := by
  induction h with
  | done =>
    rintro l hdue - hrest
    rw [Lexer.run_of_nil hrest, Lexer.run_last_of_nil hrest, hdue]
    exact ⟨rfl, rfl, rfl⟩
  | atEnd =>
    rintro l hdue rfl hrest
    rw [Lexer.run_of_nil hrest, Lexer.run_last_of_nil hrest, hdue]
    exact ⟨rfl, rfl, rfl⟩
  | space hc _ ih =>
    rintro l hdue rfl hrest
    rw [Lexer.run_space hrest hc]
    exact ih (l.moved _ _ l.canEnd) hdue rfl rfl
  | lineEnd hc _ ih =>
    rintro l rfl rfl hrest
    obtain ⟨htokens, hcomments, hdiagnostics⟩ := ih (l.moved _ _ false) rfl rfl rfl
    rw [Lexer.run_lineEnd hrest hc, htokens]
    exact ⟨rfl, hcomments, hdiagnostics⟩
  | @token _ _ _ _ _ _ tok _ hscan htok _ ih =>
    rintro l hdue rfl hrest
    rw [Lexer.run_token hrest hscan htok]
    obtain ⟨htokens, hcomments, hdiagnostics⟩ := ih (l.moved _ _ tok.endsStatement) rfl rfl rfl
    exact ⟨by rw [htokens], hcomments, hdiagnostics⟩

end GoDecls

/-
  Lexing undoes rendering.

  * `Token.Proper t`: the token is spelled as the language says;
  * `Token.Proper.scan`: the scanner finds it in its spelling, before a blank;
  * `rendered ts` is a text of these tokens with a blank between two, and
    `placed pos ts` are the tokens where they stand in it;
  * `run_rendered`: the lexer reads these tokens back.
-/
import GoDecls.Proofs.Token.Numbers
import GoDecls.Proofs.Token.Plain

namespace GoDecls

open Scan Text

/-! ## Tokens as they are spelled -/

/-- The characters of a token. -/
def Token.spelling : Token → List Char
  | .ident s | .number _ s | .rune s | .string s | .rawString s => s.toList
  | .keyword k => k.text.toList
  | .punct p => p.text.toList
  | .error => []

/-- A token that is spelled as the language says: a name is no keyword, a number is
    a literal of its kind, and a quoted literal is closed by its last character. -/
inductive Token.Proper : Token → Prop where
  | ident {c : Char} {cs : List Char} (hc : isWordStart c = true)
    (hcs : ∀ d ∈ cs, isWordPart d = true) (hk : ∀ k : Keyword, k.text.toList ≠ c :: cs) :
    Proper (.ident (String.ofList (c :: cs)))
  | number {kind : NumberKind} {cs : List Char} (h : NumberLiteral kind cs) :
    Proper (.number kind (String.ofList cs))
  | rune {body : List Char} (h : QuotedBody '\'' body) (hne : body ≠ []) :
    Proper (.rune (String.ofList ('\'' :: (body ++ ['\'']))))
  | string {body : List Char} (h : QuotedBody '"' body) :
    Proper (.string (String.ofList ('"' :: (body ++ ['"']))))
  | rawString {body : List Char} (h : backquote ∉ body) :
    Proper (.rawString (String.ofList (backquote :: (body ++ [backquote]))))
  | keyword (k : Keyword) : Proper (.keyword k)
  | punct (p : Punct) : Proper (.punct p)

variable {c : Char} {cs r : List Char} {t : Token} {ts : List Token}

theorem scan_wordParts (hc : isWordStart c = true) (hcs : ∀ d ∈ cs, isWordPart d = true) :
    scan c cs = (.word, cs.length) := by
  rw [scan_word hc, List.takeWhile_eq_self_iff.2 hcs]

/-- The spelling of a keyword is a name. -/
theorem keyword_isName (k : Keyword) : IsName k.text.toList := by
  cases k <;> exact ⟨_, _, rfl, by decide⟩

theorem wordToken_keyword (k : Keyword) : Lexer.wordToken k.text.toList = .keyword k := by
  rw [Lexer.wordToken, String.ofList_toList, Keyword.ofText?_text]

theorem wordToken_ident (hk : ∀ k : Keyword, k.text.toList ≠ cs) :
    Lexer.wordToken cs = .ident (String.ofList cs) := by
  rw [Lexer.wordToken]
  split
  · next k hk' =>
    have htext : k.text = String.ofList cs := by
      simpa using List.find?_some hk'
    exact absurd (by rw [htext, String.toList_ofList]) (hk k)
  · rfl

/-- Operators and delimiters are found in their spellings. -/
theorem scan_text (p : Punct) :
    ∃ c cs, p.text.toList = c :: cs ∧ scan c cs = (.punct p, cs.length) := by
  have hall : Punct.byLength.all fun p => p.text.toList.head?.any fun c =>
      scan c p.text.toList.tail == (.punct p, p.text.toList.tail.length) := by
    decide +kernel
  have hp := List.all_eq_true.1 hall p (Punct.mem_byLength p)
  cases htext : p.text.toList with
  | nil =>
    rw [htext] at hp
    cases hp
  | cons c cs =>
    rw [htext] at hp
    exact ⟨c, cs, rfl, by simpa using hp⟩

/-- What is found alone is found before a blank. -/
theorem scan_before_blank {k : Piece} (h : scan c cs = (k, cs.length))
    (hk : (k.token? (c :: cs)).isSome = true) (hr : BlankHead r) :
    scan c (cs ++ r) = (k, cs.length) := by
  exact scan_spaced (r := []) (by rwa [List.append_nil]) hk ⟨[], [], r, rfl, rfl, nofun, hr⟩

/-- **A token is found in its spelling**, before a blank. -/
theorem Token.Proper.scan_spelling (h : t.Proper) : ∃ c cs k, t.spelling = c :: cs ∧
    k.token? (c :: cs) = some t ∧ ∀ r, BlankHead r → scan c (cs ++ r) = (k, cs.length) := by
  cases h with
  | @ident c cs hc hcs hk =>
    have htoken : Piece.token? (c :: cs) .word = some (.ident (String.ofList (c :: cs))) := by
      rw [Piece.token?, wordToken_ident hk]
    exact ⟨c, cs, .word, String.toList_ofList, htoken, fun r hr =>
      scan_before_blank (scan_wordParts hc hcs) (by rw [htoken]; rfl) hr⟩
  | @number kind cs h =>
    obtain ⟨c, t, rfl⟩ := h.eq_cons
    refine ⟨c, t, .number, String.toList_ofList, ?_, fun r hr =>
      h.scan (.of_blankHead hr)⟩
    rw [Piece.token?, h.numberKind]
  | rune h hne =>
    exact ⟨_, _, .rune, String.toList_ofList, rfl, fun r _ =>
      scan_quoted (scanQuoted_append_iff.2 (.rune h hne))⟩
  | string h =>
    exact ⟨_, _, .string, String.toList_ofList, rfl, fun r _ =>
      scan_quoted (scanQuoted_append_iff.2 (.string h))⟩
  | rawString h =>
    exact ⟨_, _, .rawString, String.toList_ofList, rfl, fun r _ =>
      scan_quoted (scanQuoted_append_iff.2 (.rawString h))⟩
  | keyword k =>
    obtain ⟨c, cs, htext, hc, hcs⟩ := keyword_isName k
    have htoken : Piece.token? (c :: cs) .word = some (.keyword k) := by
      rw [Piece.token?, ← htext, wordToken_keyword]
    exact ⟨c, cs, .word, htext, htoken, fun r hr =>
      scan_before_blank (scan_wordParts hc hcs) (by rw [htoken]; rfl) hr⟩
  | punct p =>
    obtain ⟨c, cs, htext, hscan⟩ := scan_text p
    exact ⟨c, cs, .punct p, htext, rfl, fun r hr => scan_before_blank hscan rfl hr⟩

/-! ## Texts of tokens -/

/-- The tokens with a blank between two. -/
def rendered (ts : List Token) : List Char := [' '].intercalate (ts.map Token.spelling)

/-- The tokens where they stand in a text of them that begins at byte `pos`. -/
def placed (pos : Nat) : List Token → List Lexeme
  | [] => []
  | t :: ts =>
    let stop := pos + byteLength t.spelling
    ⟨pos, t, stop⟩ :: placed (stop + 1) ts

/-- The semicolon at byte `pos` behind these tokens, if one is due. -/
def lastSemi (pos : Nat) (ts : List Token) : List Lexeme :=
  if ts.getLast?.any Token.endsStatement then [.inserted pos] else []

theorem rendered_cons_cons (t u : Token) (ts : List Token) :
    rendered (t :: u :: ts) = t.spelling ++ ' ' :: rendered (u :: ts) := by
  simp [rendered, List.intercalate]

theorem map_token_placed (pos : Nat) (ts : List Token) :
    (placed pos ts).map (·.token) = ts := by
  induction ts generalizing pos with
  | nil => rfl
  | cons t ts ih => simp [placed, ih]

theorem rendered_singleton (t : Token) : rendered [t] = t.spelling := by
  simp [rendered, List.intercalate]

/-- Each token covers its spelling. -/
theorem slice?_placed (front : List Char) (ts : List Token) : ∀ l ∈ placed (byteLength front) ts,
    slice? (front ++ rendered ts) l.start l.stop = some l.token.spelling := by
  induction ts generalizing front with
  | nil => exact nofun
  | cons t ts ih =>
    intro l hl
    rcases List.mem_cons.1 hl with rfl | hl
    · have hslice := fun back => slice?_append front t.spelling back
      simp only [byteLength_append] at hslice
      cases ts with
      | nil => simpa [rendered_singleton] using hslice []
      | cons u ts => simpa [rendered_cons_cons] using hslice (' ' :: rendered (u :: ts))
    · cases ts with
      | nil => cases hl
      | cons u ts =>
        have hfront : byteLength (front ++ t.spelling ++ [' ']) =
            byteLength front + byteLength t.spelling + 1 := by
          simp only [byteLength_append]
          rfl
        have := ih (front ++ t.spelling ++ [' ']) l (by rwa [hfront])
        simpa [rendered_cons_cons] using this

/-- A token may stand before a plain text that begins with a blank. -/
theorem Plain.spelling (due : Bool) {pos : Nat} {ls : List Lexeme} (ht : t.Proper)
    (hr : BlankHead r) (h : Plain t.endsStatement (pos + byteLength t.spelling) r ls) :
    Plain due pos (t.spelling ++ r) (⟨pos, t, pos + byteLength t.spelling⟩ :: ls) := by
  obtain ⟨c, cs, k, htext, htoken, hscan⟩ := ht.scan_spelling
  rw [htext] at h ⊢
  exact .token (hscan r hr) htoken h

/-- **A text of tokens is a plain one.** -/
theorem plain_rendered (h : ∀ t ∈ ts, t.Proper) (hne : ts ≠ []) (due : Bool) (pos : Nat) :
    Plain due pos (rendered ts) (placed pos ts ++ lastSemi (pos + byteLength (rendered ts)) ts) := by
  induction ts generalizing due pos with
  | nil => exact absurd rfl hne
  | cons t ts ih =>
    have ht := h t List.mem_cons_self
    cases ts with
    | nil =>
      have hlast : ∀ p, Plain t.endsStatement p [] (lastSemi p [t]) := by
        intro p
        rw [lastSemi, List.getLast?_singleton, Option.any_some]
        cases t.endsStatement with
        | false => exact .done
        | true => exact .atEnd
      rw [rendered_singleton]
      simpa [placed] using Plain.spelling due ht .nil (hlast (pos + byteLength t.spelling))
    | cons u ts =>
      have hrest := ih (fun t ht => h t (List.mem_cons_of_mem _ ht)) (List.cons_ne_nil _ _)
        t.endsStatement (pos + byteLength t.spelling + 1)
      have hspace : isSpace ' ' = true := rfl
      have := Plain.spelling due ht (.of_mem (by decide)) (.space hspace hrest)
      have hsize : pos + byteLength (rendered (t :: u :: ts)) =
          pos + byteLength t.spelling + 1 + byteLength (rendered (u :: ts)) := by
        have : ' '.utf8Size = 1 := rfl
        simp only [rendered_cons_cons, byteLength_append, byteLength_cons]
        omega
      rw [rendered_cons_cons] at hsize ⊢
      rw [hsize, placed, List.cons_append]
      exact this

/-- **Lexing undoes rendering.**  A text of tokens with a blank between two is read
    without a comment or fault; its tokens are these, each covers its spelling, and
    behind the last one stands a semicolon if that one may end a statement. -/
theorem run_rendered (h : ∀ t ∈ ts, t.Proper) :
    (Lexer.ofText (rendered ts)).run.1 =
      placed 0 ts ++ lastSemi (byteLength (rendered ts)) ts ∧
    (Lexer.ofText (rendered ts)).run.2.comments = [] ∧
    (Lexer.ofText (rendered ts)).run.2.diagnostics = [] ∧
    (placed 0 ts).map (·.token) = ts ∧
    ∀ l ∈ placed 0 ts, slice? (rendered ts) l.start l.stop = some l.token.spelling := by
  have hplain :
      Plain false 0 (rendered ts) (placed 0 ts ++ lastSemi (byteLength (rendered ts)) ts) := by
    cases ts with
    | nil => exact .done
    | cons t ts =>
      have := plain_rendered h (List.cons_ne_nil _ _) false 0
      rwa [Nat.zero_add] at this
  obtain ⟨htokens, hcomments, hdiagnostics⟩ := hplain.run (.ofText (rendered ts)) rfl rfl rfl
  exact ⟨htokens, hcomments, hdiagnostics, map_token_placed 0 ts, slice?_placed [] ts⟩

/-- A statement with tokens of several kinds, one of them with a comment mark. -/
theorem run_rendered_return :
    let ts : List Token := [.keyword .return_, .ident "x", .punct .shl, .number .float "0x1p-2",
      .rune "'\\''", .string "\"/*\""]
    (∀ t ∈ ts, t.Proper) ∧
    (Lexer.ofText "return x << 0x1p-2 '\\'' \"/*\"".toList).run.1 =
      placed 0 ts ++ [.inserted 28] := by
  intro ts
  have hx : Token.Proper (.ident (String.ofList ['x'])) :=
    .ident (by decide) nofun fun k => by cases k <;> decide
  have hfloat : NumberLiteral .float "0x1p-2".toList :=
    .float (.hex (.inl rfl) (.whole (.plain (.single (by decide))))
      (.signed (by decide) (.inr rfl) (.single (by decide))))
  have hrune : QuotedBody '\'' ['\\', '\''] := .escaped (by decide) .nil
  have hstring : QuotedBody '"' ['/', '*'] :=
    .plain (by decide) (by decide) rfl (.plain (by decide) (by decide) rfl .nil)
  have hproper : ∀ t ∈ ts, t.Proper := by
    refine List.forall_mem_cons.2 ⟨.keyword _, List.forall_mem_cons.2 ⟨hx, ?_⟩⟩
    refine List.forall_mem_cons.2 ⟨.punct _, List.forall_mem_cons.2 ⟨.number hfloat, ?_⟩⟩
    refine List.forall_mem_cons.2 ⟨.rune hrune (by decide), ?_⟩
    exact List.forall_mem_cons.2 ⟨.string hstring, nofun⟩
  refine ⟨hproper, ?_⟩
  exact (run_rendered hproper).1

end GoDecls

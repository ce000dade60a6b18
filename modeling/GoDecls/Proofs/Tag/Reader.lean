/-
  Reading entries one at a time is safe on every text, and reads the entries of the text.

  * `Behind text p cs`: from byte `p` on the text is `cs`; between two such places there
    is a stretch of the text (`Behind.slice?_eq`);
  * `Reader.At text cs r`: the reader is in front of `cs`, and every stretch that it has
    asked for has its ends between characters;
  * `Reader.Gives text o x`: a reader finds what a function on characters does, and is in
    front of what that leaves;
  * `quoted_gives` and `raw_gives`, where the reader steps over single bytes, and from
    them `value_gives`, `behindKey_gives` and `next_yields`;
  * `calls_yields`: a number of calls are answered by the entries in order, and from
    there on by nothing;
  * `byteLength_entries`: what the entries have together;
  * `properties_reader_safe`: all of this for a tag.
-/
import GoDecls.Proofs.Tag.Entries
import GoDecls.Proofs.Text.Encode
import GoDecls.Proofs.Token.Account
import GoDecls.Tag.Reader

namespace GoDecls.Property

open Text

variable {text cs mid rest value taken : List Char} {c : Char} {p start : Nat} {q b : UInt8}
  {bs us : List UInt8}

/-! ## Places -/

/-- From byte `p` on, the text is `cs`. -/
def Behind (text : List Char) (p : Nat) (cs : List Char) : Prop :=
  ∃ front, text = front ++ cs ∧ byteLength front = p

theorem Behind.isBoundary (h : Behind text p cs) : IsBoundary text p := by
  obtain ⟨front, rfl, rfl⟩ := h
  exact .of_append _ _

theorem Behind.append (h : Behind text p (mid ++ rest)) :
    Behind text (p + byteLength mid) rest := by
  obtain ⟨front, rfl, rfl⟩ := h
  exact ⟨front ++ mid, (List.append_assoc _ _ _).symm, byteLength_append _ _⟩

theorem Behind.cons (h : Behind text p (c :: rest)) : Behind text (p + c.utf8Size) rest :=
  Behind.append (show Behind text p ([c] ++ rest) from h)

theorem Behind.ascii (h : Behind text p (c :: rest)) (hc : c.toNat < 128) :
    Behind text (p + 1) rest :=
  utf8Size_ascii hc ▸ h.cons

/-- What is left of a text tells the place. -/
theorem Behind.eq {p' : Nat} (h : Behind text p cs) (h' : Behind text p' cs) : p = p' := by
  obtain ⟨front, rfl, rfl⟩ := h
  obtain ⟨front', htext, rfl⟩ := h'
  rw [List.append_cancel_right htext]

theorem Behind.slice?_eq (h : Behind text start (mid ++ rest)) (h' : Behind text p rest) :
    slice? text start p = some mid := by
  obtain rfl := h'.eq h.append
  obtain ⟨front, rfl, rfl⟩ := h
  rw [← List.append_assoc, ← byteLength_append]
  exact slice?_append front mid rest

theorem Behind.drop_encode (h : Behind text p cs) : (encode text).drop p = encode cs := by
  obtain ⟨front, rfl, rfl⟩ := h
  exact Text.drop_encode front cs

/-! ## The first entry -/

/-- The first entry of a text, and what is left behind it. -/
def entryOf? (cs : List Char) : Option ((String × String) × List Char) :=
  let key := (skipSpaces cs).takeWhile isKeyChar
  if key = [] then none
  else (afterKey? ((skipSpaces cs).dropWhile isKeyChar)).map fun p =>
    ((String.ofList key, String.ofList p.1), p.2)

theorem entries_eq_entryOf? (cs : List Char) : entries cs =
    match entryOf? cs with
    | none => []
    | some (e, rest) => e :: entries rest := by
  rw [entries_eq, entryOf?]
  cases hskip : skipSpaces cs with
  | nil => rfl
  | cons c rest =>
    by_cases hc : isKeyChar c = true
    · rw [List.takeWhile_cons_of_pos hc, List.dropWhile_cons_of_pos hc]
      simp only [if_pos hc, if_neg (List.cons_ne_nil _ _)]
      cases afterKey? (rest.dropWhile isKeyChar) <;> rfl
    · rw [List.takeWhile_cons_of_neg hc]
      simp only [if_neg hc, if_true]

namespace Reader

variable {r : Reader}

/-- A stretch from one place between characters to one that is no earlier. -/
structure Between (text : List Char) (s : Stretch) : Prop where
  le : s.1 ≤ s.2
  start : IsBoundary text s.1
  stop : IsBoundary text s.2

/-- The reader reads this text, and every stretch it has asked for is one. -/
structure Kept (text : List Char) (r : Reader) : Prop where
  text_eq : r.text = text
  asked : ∀ s ∈ r.asked, Between text s

/-- The reader is in front of `cs`, and going on. -/
structure At (text cs : List Char) (r : Reader) : Prop extends Kept text r where
  behind : Behind text r.pos cs
  ended : r.ended = false

theorem advance_advance (m n : Nat) : (r.advance m).advance n = r.advance (m + n) := by
  rw [Reader.advance, Reader.advance, Nat.add_assoc]
  rfl

theorem Kept.advance (h : r.Kept text) (n : Nat) : (r.advance n).Kept text := ⟨h.1, h.2⟩

theorem Kept.finish (h : r.Kept text) : r.finish.Kept text := ⟨h.1, h.2⟩

theorem At.ofText (text : List Char) : (ofText text).At text text :=
  ⟨⟨rfl, List.forall_mem_nil _⟩, ⟨[], rfl, rfl⟩, rfl⟩

theorem At.left_eq (h : r.At text cs) : r.left = encode cs := by
  rw [left, h.text_eq]
  exact h.behind.drop_encode

theorem At.append (h : r.At text (mid ++ rest)) : (r.advance (byteLength mid)).At text rest :=
  ⟨h.advance _, h.behind.append, h.ended⟩

theorem At.cons (h : r.At text (c :: rest)) : (r.advance c.utf8Size).At text rest :=
  At.append (show r.At text ([c] ++ rest) from h)

theorem At.ascii (h : r.At text (c :: rest)) (hc : c.toNat < 128) : (r.advance 1).At text rest :=
  utf8Size_ascii hc ▸ h.cons

theorem At.skipWhile {p : UInt8 → Bool} {P : Char → Bool} (h : r.At text cs) (hp : Reads p P) :
    (r.skipWhile p).At text (cs.dropWhile P) := by
  rw [Reader.skipWhile, h.left_eq, length_takeWhile_encode hp]
  have hsplit : r.At text (cs.takeWhile P ++ cs.dropWhile P) := by
    rwa [List.takeWhile_append_dropWhile]
  exact hsplit.append

theorem At.ask (h : r.At text rest) (hstart : Behind text start (mid ++ rest)) :
    ∃ r', r.ask start = (some mid, r') ∧ r'.At text rest ∧ r'.pos = r.pos := by
  have hle : start ≤ r.pos := h.behind.eq hstart.append ▸ Nat.le_add_right _ _
  have hbetween : Between text (start, r.pos) := ⟨hle, hstart.isBoundary, h.behind.isBoundary⟩
  have hask : r.ask start = (some mid, (r.ask start).2) :=
    Prod.ext (by rw [← hstart.slice?_eq h.behind, Reader.ask, h.text_eq]) rfl
  exact ⟨_, hask, ⟨⟨h.text_eq, List.forall_mem_cons.2 ⟨hbetween, h.asked⟩⟩, h.behind, h.ended⟩, rfl⟩

theorem At.take (h : r.At text rest) (hstart : Behind text start (mid ++ rest)) :
    ∃ r', r.take start = .ok (mid, r') ∧ r'.At text rest ∧ r'.pos = r.pos := by
  obtain ⟨r', hask, hat⟩ := h.ask hstart
  exact ⟨r', by rw [Reader.take, hask], hat⟩

/-- The reader has the text `cs` still to read: it is in front of it, or it is not going on
    and there is none. -/
inductive Has (text cs : List Char) (r : Reader) : Prop
  | at (h : r.At text cs)
  | ended (h : r.Kept text) (hended : r.ended = true) (hcs : cs = [])

theorem Has.kept (h : r.Has text cs) : r.Kept text := by
  cases h with
  | «at» h => exact h.toKept
  | ended h => exact h

/-- A reader finds what a function on characters finds, and stands to the text left as `Left`
    says; it finds nothing where that finds nothing. -/
def Gives {α : Type} (text : List Char) (Left : List Char → Reader → Prop)
    (o : Option (α × List Char)) (x : Except Stretch (Option α × Reader)) : Prop :=
  match o with
  | none => ∃ r, x = .ok (none, r) ∧ r.Kept text
  | some (a, rest) => ∃ r, x = .ok (some a, r) ∧ Left rest r

/-! ## Values between quotes -/

/-- Between the quotes `q` such a byte is neither the closing one nor one that is left
    out. -/
def Plain (q b : UInt8) : Prop :=
  b ≠ q ∧ ¬ (b = '\r'.toUInt8 ∧ q = '\x60'.toUInt8) ∧ ¬ (b = '\\'.toUInt8 ∧ q ≠ '\x60'.toUInt8)

/-- The reader steps over plain bytes, whether or not they begin a character. -/
theorem quoted_plain (h : ∀ b ∈ us, Plain q b) :
    quoted q start taken (us ++ bs) r = quoted q start taken bs (r.advance us.length) := by
  induction us generalizing r with
  | nil => rfl
  | cons b us ih =>
    obtain ⟨⟨hquote, hreturn, hback⟩, hus⟩ := List.forall_mem_cons.1 h
    rw [List.cons_append, quoted.eq_def]
    simp only [if_neg hquote, if_neg hreturn, if_neg hback]
    rw [ih hus, advance_advance, List.length_cons, Nat.add_comm]

theorem quoted_char (h : ∀ b ∈ String.utf8EncodeChar c, Plain q b) :
    quoted q start taken (encode (c :: cs)) r =
      quoted q start taken (encode cs) (r.advance c.utf8Size) := by
  rw [encode_cons, quoted_plain h, String.length_utf8EncodeChar]

theorem ne_of_mem {d : Char} (hb : b ∈ String.utf8EncodeChar c) (hd : d.toNat < 128)
    (hne : c ≠ d) : b ≠ d.toUInt8 := by
  simpa [hne] using beq_of_mem hb hd

theorem ne_of_high {d : Char} (hb : 128 ≤ b.toNat) (hd : d.toNat < 128) : b ≠ d.toUInt8 := by
  rintro rfl
  rw [toNat_toUInt8 hd] at hb
  omega

/-- At the closing quote. -/
theorem quoted_quote {quote : Char} (hascii : quote.toNat < 128) (h : r.At text (quote :: cs))
    (hstart : Behind text start (mid ++ quote :: cs)) :
    Gives text (At text) (some (taken ++ mid, cs))
      (quoted quote.toUInt8 start taken (encode (quote :: cs)) r) := by
  obtain ⟨r', hask, hat, -⟩ := h.ask hstart
  refine ⟨r'.advance 1, ?_, hat.ascii hascii⟩
  rw [encode_ascii hascii, quoted.eq_def]
  simp only [if_true, hask]

section

variable {quote : Char}

theorem quote_facts (hq : quote ∈ ['"', '\'']) :
    quote.toNat < 128 ∧ '\\'.toUInt8 ≠ quote.toUInt8 ∧ quote.toUInt8 ≠ '\x60'.toUInt8 := by
  rcases List.mem_pair.1 hq with rfl | rfl <;> decide

/-- Between quotes, the bytes of any other character but a backslash are plain. -/
theorem plain_of_quoted (hq : quote ∈ ['"', '\'']) (hquote : c ≠ quote) (hback : c ≠ '\\')
    (hb : b ∈ String.utf8EncodeChar c) : Plain quote.toUInt8 b := by
  obtain ⟨hascii, -, hraw⟩ := quote_facts hq
  exact ⟨ne_of_mem hb hascii hquote, fun h => hraw h.2, fun h => ne_of_mem hb (by decide) hback h.1⟩

theorem plain_of_high (hq : quote ∈ ['"', '\'']) (hb : 128 ≤ b.toNat) : Plain quote.toUInt8 b := by
  obtain ⟨hascii, -, hraw⟩ := quote_facts hq
  exact ⟨ne_of_high hb hascii, fun h => hraw h.2, fun h => ne_of_high hb (by decide) h.1⟩

theorem quoted_backslash (hq : quote ∈ ['"', '\'']) :
    quoted quote.toUInt8 start taken ('\\'.toUInt8 :: bs) r =
      match r.take start, bs with
      | .error stretch, _ => .error stretch
      | .ok (_, r), [] => .ok (none, r.advance 1)
      | .ok (piece, r), _ :: bs =>
        quoted quote.toUInt8 (r.pos + 1) (taken ++ piece) bs (r.advance 2) := by
  obtain ⟨-, hquote, hraw⟩ := quote_facts hq
  rw [quoted.eq_def]
  exact (if_neg hquote).trans ((if_neg fun h => hraw h.2).trans (if_pos ⟨rfl, hraw⟩))

/-- At a backslash what stands before it is taken, and the first byte of the character
    behind it is not looked at. -/
theorem quoted_escaped (taken : List Char) (hq : quote ∈ ['"', '\'']) (h : r.At text ('\\' :: c :: cs))
    (hstart : Behind text start (mid ++ '\\' :: c :: cs)) :
    ∃ r', quoted quote.toUInt8 start taken (encode ('\\' :: c :: cs)) r =
        quoted quote.toUInt8 (r.pos + 1) (taken ++ mid) (encode cs) r' ∧ r'.At text cs := by
  obtain ⟨r', htake, hat, hpos⟩ := h.take hstart
  obtain ⟨b, bs, hbytes, hhigh⟩ := exists_first_byte c
  have hsize : 2 + bs.length = 1 + c.utf8Size := by
    rw [← String.length_utf8EncodeChar, hbytes, List.length_cons]
    omega
  refine ⟨_, ?_, (hat.ascii (by decide)).cons⟩
  rw [encode_ascii (by decide), encode_cons, hbytes, quoted_backslash hq, htake]
  dsimp only [List.cons_append]
  rw [quoted_plain fun b hb => plain_of_high hq (hhigh b hb), advance_advance, advance_advance,
    hsize, hpos]

theorem quoted_gives (mid taken : List Char) (hq : quote ∈ ['"', '\'']) (h : r.At text cs)
    (hstart : Behind text start (mid ++ cs)) :
    Gives text (At text) ((quoted? quote cs).map fun p => (taken ++ (mid ++ p.1), p.2))
      (quoted quote.toUInt8 start taken (encode cs) r) := by
  fun_induction quoted? quote cs generalizing start mid taken r with
  | case1 => exact ⟨r, rfl, h.toKept⟩
  | case2 cs => simpa using quoted_quote (quote_facts hq).1 h hstart
  | case3 hquote =>
    obtain ⟨r', htake, hat, -⟩ := h.take hstart
    refine ⟨r'.advance 1, ?_, hat.toKept.advance 1⟩
    rw [encode_ascii (by decide), quoted_backslash hq, htake]
    rfl
  | case4 d ds hquote ih =>
    obtain ⟨r', hread, hat⟩ := quoted_escaped taken hq h hstart
    have hnext := ih [d] (taken ++ mid) hat (h.behind.ascii (by decide))
    rw [hread]
    simpa [Function.comp_def, List.append_assoc] using hnext
  | case5 c cs hquote hback ih =>
    have hnext := ih (mid ++ [c]) taken h.cons (by rwa [List.append_assoc])
    rw [quoted_char fun b => plain_of_quoted hq hquote hback]
    simpa [Function.comp_def, List.append_assoc] using hnext

end

/-- Between backquotes, the bytes of any other character but a carriage return are plain. -/
theorem plain_of_raw (hquote : c ≠ '\x60') (hreturn : c ≠ '\r')
    (hb : b ∈ String.utf8EncodeChar c) : Plain '\x60'.toUInt8 b :=
  ⟨ne_of_mem hb (by decide) hquote, fun h => ne_of_mem hb (by decide) hreturn h.1,
    fun h => h.2 rfl⟩

theorem raw_gives (mid taken : List Char) (h : r.At text cs)
    (hstart : Behind text start (mid ++ cs)) :
    Gives text (At text) ((raw? cs).map fun p => (taken ++ (mid ++ p.1), p.2))
      (quoted '\x60'.toUInt8 start taken (encode cs) r) := by
  induction cs generalizing start mid taken r with
  | nil => exact ⟨r, rfl, h.toKept⟩
  | cons c cs ih =>
    rw [raw?]
    by_cases hquote : c = '\x60'
    · subst hquote
      simpa using quoted_quote (by decide) h hstart
    rw [if_neg hquote]
    by_cases hreturn : c = '\r'
    · -- what stands before the carriage return is taken
      subst hreturn
      obtain ⟨r', htake, hat, hpos⟩ := h.take hstart
      have hnext := ih [] (taken ++ mid) (hat.ascii (by decide))
        (hat.behind.ascii (by decide))
      have hread : quoted '\x60'.toUInt8 start taken (encode ('\r' :: cs)) r =
          quoted '\x60'.toUInt8 (r'.pos + 1) (taken ++ mid) (encode cs) (r'.advance 1) := by
        rw [encode_ascii (by decide), quoted.eq_def]
        refine (if_neg (by decide)).trans ((if_pos (by decide)).trans ?_)
        rw [htake]
      rw [hread]
      simpa [Function.comp_def, List.append_assoc] using hnext
    · have hnext := ih (mid ++ [c]) taken h.cons (by rwa [List.append_assoc])
      rw [quoted_char fun b => plain_of_raw hquote hreturn]
      simpa [Function.comp_def, List.append_assoc, hreturn] using hnext

/-! ## Values -/

theorem At.peek_nil (h : r.At text []) : r.peek = none := by
  rw [peek, h.left_eq]
  rfl

theorem At.peek_cons (h : r.At text (c :: cs)) :
    ∃ b ∈ String.utf8EncodeChar c, r.peek = some b := by
  rw [peek, h.left_eq]
  exact exists_head?_encode c cs

theorem At.peek_ascii (h : r.At text (c :: cs)) (hc : c.toNat < 128) :
    r.peek = some c.toUInt8 := by
  rw [peek, h.left_eq, encode_ascii hc]
  rfl

theorem reads_space : Reads isSpaceByte isSpace := fun c b hb => by
  simp only [isSpaceByte, isSpace, beq_of_mem hb (d := ' ') (by decide),
    beq_of_mem hb (d := '\t') (by decide)]

theorem reads_key : Reads isKeyByte isKeyChar := fun c b hb => by
  simp only [isKeyByte, isKeyChar, reads_space c b hb, beq_of_mem hb (d := '=') (by decide),
    beq_of_mem hb (d := ',') (by decide)]

theorem reads_quote : Reads isQuoteByte fun c => c == '"' || c == '\'' || c == '\x60' :=
  fun c b hb => by
    simp only [isQuoteByte, beq_of_mem hb (d := '"') (by decide),
      beq_of_mem hb (d := '\'') (by decide), beq_of_mem hb (d := '\x60') (by decide)]

theorem reads_bare : Reads isBareByte isBareChar := fun c b hb => by
  have hblank : ' '.toUInt8 < b ↔ ' ' < c := by
    rw [UInt8.lt_iff_toNat_lt, Char.lt_def, UInt32.lt_iff_toNat_lt]
    change _ ↔ ' '.toNat < c.toNat
    have hspace : ' '.toUInt8.toNat = 32 ∧ ' '.toNat = 32 := by decide
    rcases utf8EncodeChar_cases c with ⟨hc, h⟩ | ⟨hc, h⟩
    · obtain rfl := List.mem_singleton.1 (h ▸ hb)
      rw [toNat_toUInt8 hc, hspace.1, hspace.2]
    · have hhigh := h b hb
      omega
  simp only [isBareByte, isBareChar, bne, beq_of_mem hb (d := ',') (by decide), hblank]

theorem At.value_gives (h : r.At text cs) : Gives text (At text) (value? cs) r.value := by
  cases cs with
  | nil => exact ⟨r, by rw [value, h.peek_nil]; rfl, h⟩
  | cons c cs =>
    by_cases hquote : c ∈ ['"', '\'', '\x60']
    · have hquoted : c.toNat < 128 ∧ isQuoteByte c.toUInt8 = true := by
        simp only [List.mem_cons, List.not_mem_nil, or_false] at hquote
        rcases hquote with rfl | rfl | rfl <;> decide
      have hat := h.ascii hquoted.1
      have hread : r.value = 
          quoted c.toUInt8 (r.advance 1).pos [] (encode cs) (r.advance 1) := by
        rw [value, h.peek_ascii hquoted.1, ← hat.left_eq]
        exact if_pos hquoted.2
      rw [hread]
      simp only [List.mem_cons, List.not_mem_nil, or_false] at hquote
      rcases hquote with rfl | rfl | rfl
      · simpa [value?] using quoted_gives [] [] (by decide) hat hat.behind
      · simpa [value?] using quoted_gives [] [] (by decide) hat hat.behind
      · simpa [value?] using raw_gives [] [] hat hat.behind
    · obtain ⟨b, hb, hpeek⟩ := h.peek_cons
      have hbyte : ¬ isQuoteByte b = true := by
        rw [reads_quote c b hb]
        simpa [and_assoc] using hquote
      have hstart : Behind text r.pos ((c :: cs).takeWhile isBareChar ++
          (c :: cs).dropWhile isBareChar) := by
        rw [List.takeWhile_append_dropWhile]
        exact h.behind
      obtain ⟨r', htake, hat, -⟩ := (h.skipWhile reads_bare).take hstart
      have hread : r.value = .ok (some ((c :: cs).takeWhile isBareChar), r') := by
        rw [value, hpeek]
        refine (if_neg hbyte).trans ?_
        rw [htake]
        rfl
      have hbare : ∀ d ∈ (c :: cs).head?, d ∉ ['"', '\'', '\x60'] := by
        rintro _ ⟨⟩
        exact hquote
      rw [value?_bare hbare]
      exact ⟨r', hread, hat⟩

/-! ## Entries -/

theorem At.skipSpaces (h : r.At text cs) :
    (r.skipWhile isSpaceByte).At text (Property.skipSpaces cs) :=
  h.skipWhile reads_space

theorem At.behindValue (h : r.At text cs) : r.behindValue.Has text (afterValue cs) := by
  have hat := h.skipSpaces
  unfold Reader.behindValue afterValue
  generalize r.skipWhile isSpaceByte = r₁ at hat
  generalize Property.skipSpaces cs = cs₁ at hat
  cases cs₁ with
  | nil =>
    simp only [hat.peek_nil]
    exact .at hat
  | cons c rest =>
    by_cases hcomma : c = ','
    · subst hcomma
      simp only [hat.peek_ascii (by decide), if_true]
      exact .at (hat.ascii (by decide))
    · obtain ⟨b, hb, hpeek⟩ := hat.peek_cons
      simp only [hpeek, if_neg (ne_of_mem hb (by decide) hcomma)]
      refine .ended hat.toKept.finish rfl ?_
      split
      · next e => exact absurd (List.cons.inj e).1 hcomma
      · rfl

theorem At.behindKey_gives (h : r.At text cs) :
    Gives text (Has text) (afterKey? cs) r.behindKey := by
  have hat := h.skipSpaces
  unfold Reader.behindKey afterKey?
  generalize r.skipWhile isSpaceByte = r₁ at hat
  generalize Property.skipSpaces cs = cs₁ at hat
  cases cs₁ with
  | nil =>
    simp only [hat.peek_nil]
    exact ⟨r₁, rfl, .at hat⟩
  | cons c rest =>
    by_cases hcomma : c = ','
    · subst hcomma
      simp only [hat.peek_ascii (by decide), if_true]
      exact ⟨_, rfl, .at (hat.ascii (by decide))⟩
    by_cases hequals : c = '='
    · subst hequals
      have hvalue := (hat.ascii (by decide)).skipSpaces.value_gives
      simp only [hat.peek_ascii (by decide), if_neg (show '='.toUInt8 ≠ ','.toUInt8 by decide),
        if_true]
      cases hread : value? (Property.skipSpaces rest) with
      | none =>
        rw [hread] at hvalue
        obtain ⟨r', hr', hkept⟩ := hvalue
        exact ⟨r', by rw [hr']; rfl, hkept⟩
      | some p =>
        rw [hread] at hvalue
        obtain ⟨r', hr', hbehind⟩ := hvalue
        exact ⟨r'.behindValue, by rw [hr']; rfl, hbehind.behindValue⟩
    · obtain ⟨b, hb, hpeek⟩ := hat.peek_cons
      simp only [hpeek, if_neg (ne_of_mem hb (by decide) hcomma),
        if_neg (ne_of_mem hb (by decide) hequals)]
      split
      · next e => exact absurd e (by simp)
      · next e => exact absurd (List.cons.inj e).1 hcomma
      · next e => exact absurd (List.cons.inj e).1 hequals
      · exact ⟨r₁, rfl, hat.toKept⟩

theorem At.entry_gives (h : r.At text cs) : Gives text (Has text) (entryOf? cs) r.entry := by
  have hfront := h.skipSpaces
  have hbehind := hfront.skipWhile reads_key
  rw [Reader.entry, entryOf?]
  generalize r.skipWhile isSpaceByte = front at hfront hbehind
  generalize Property.skipSpaces cs = cs₁ at hfront hbehind
  generalize front.skipWhile isKeyByte = behind at hbehind
  have hstart : Behind text front.pos (cs₁.takeWhile isKeyChar ++ cs₁.dropWhile isKeyChar) := by
    rw [List.takeWhile_append_dropWhile]
    exact hfront.behind
  have hpos : behind.pos = front.pos ↔ cs₁.takeWhile isKeyChar = [] := by
    rw [hbehind.behind.eq hstart.append, ← byteLength_eq_zero]
    omega
  dsimp only
  by_cases hkey : cs₁.takeWhile isKeyChar = []
  · rw [if_pos (hpos.2 hkey), if_pos hkey]
    exact ⟨behind, rfl, hbehind.toKept⟩
  · obtain ⟨r₁, htake, hat, -⟩ := hbehind.take hstart
    have hvalue := hat.behindKey_gives
    rw [if_neg (hkey ∘ hpos.1), if_neg hkey, htake]
    cases hread : afterKey? (cs₁.dropWhile isKeyChar) with
    | none =>
      rw [hread] at hvalue
      obtain ⟨r', hr', hkept⟩ := hvalue
      exact ⟨r', by simp [bind, Except.bind, hr'], hkept⟩
    | some p =>
      rw [hread] at hvalue
      obtain ⟨r', hr', hhas⟩ := hvalue
      exact ⟨r', by simp [bind, Except.bind, hr'], hhas⟩

/-- One call answers with the first entry, and leaves the reader to those behind it. -/
theorem Has.next (h : r.Has text cs) : ∃ r' rest, r.next = .ok ((entries cs).head?, r') ∧
    r'.Has text rest ∧ entries rest = (entries cs).tail := by
  have hnone : entries [] = [] := by rw [entries_eq]; rfl
  cases h with
  | ended h hended hcs =>
    subst hcs
    refine ⟨r, [], ?_, .ended h hended rfl, by rw [hnone]; rfl⟩
    rw [Reader.next, if_pos hended, hnone]
    rfl
  | «at» h =>
    have hentry := h.entry_gives
    rw [Reader.next, if_neg (by rw [h.ended]; decide), entries_eq_entryOf? cs]
    cases hread : entryOf? cs with
    | none =>
      rw [hread] at hentry
      obtain ⟨r', hr', hkept⟩ := hentry
      exact ⟨r'.finish, [], by rw [hr']; rfl, .ended hkept.finish rfl rfl, hnone⟩
    | some p =>
      rw [hread] at hentry
      obtain ⟨r', hr', hhas⟩ := hentry
      exact ⟨r', p.2, by rw [hr']; rfl, hhas, rfl⟩

/-- A number of calls are answered by the entries in order, and behind the last by nothing. -/
theorem Has.calls (h : r.Has text cs) (n : Nat) : ∃ r',
    r.calls n = .ok ((List.range n).map ((entries cs)[·]?), r') ∧ r'.Kept text := by
  induction n generalizing r cs with
  | zero => exact ⟨r, rfl, h.kept⟩
  | succ n ih =>
    obtain ⟨r₁, rest, hnext, hhas, hrest⟩ := h.next
    obtain ⟨r', hcalls, hkept⟩ := ih hhas
    have hanswers : (List.range (n + 1)).map ((entries cs)[·]?) =
        (entries cs).head? :: (List.range n).map ((entries rest)[·]?) := by
      rw [List.range_succ_eq_map, List.map_cons, List.map_map, List.head?_eq_getElem?, hrest]
      simp only [Function.comp_def, List.getElem?_tail]
    refine ⟨r', ?_, hkept⟩
    rw [Reader.calls, hnext, hanswers]
    simp only [bind, Except.bind, hcalls]

end Reader

/-! ## Keys and lengths -/

theorem isKey_of_entryOf? {e : String × String} (h : entryOf? cs = some (e, rest)) : IsKey e.1 := by
  rw [entryOf?] at h
  split at h
  · cases h
  next hkey =>
    obtain ⟨p, -, hp⟩ := Option.map_eq_some_iff.1 h
    cases hp
    refine ⟨fun h => hkey (String.ofList_eq_empty_iff.1 h), fun c hc => isKeyChar_iff.1 ?_⟩
    rw [String.toList_ofList] at hc
    exact List.mem_takeWhile_imp hc

theorem byteLength_skipSpaces_le (cs : List Char) : byteLength (skipSpaces cs) ≤ byteLength cs := by
  have h := congrArg byteLength (List.takeWhile_append_dropWhile (p := isSpace) (l := cs))
  rw [byteLength_append] at h
  exact h ▸ Nat.le_add_left _ _

theorem byteLength_quoted? {quote : Char} (h : quoted? quote cs = some (value, rest)) :
    byteLength value + byteLength rest ≤ byteLength cs := by
  fun_induction quoted? quote cs generalizing value rest with
  | case1 => cases h
  | case2 =>
    cases h
    simp
  | case3 => cases h
  | case4 d ds hquote ih =>
    obtain ⟨⟨value, rest⟩, hq, hp⟩ := Option.map_eq_some_iff.1 h
    obtain ⟨rfl, rfl⟩ := Prod.mk.inj hp
    have hle := ih hq
    simp only [byteLength_cons]
    omega
  | case5 c cs hquote hback ih =>
    obtain ⟨⟨value, rest⟩, hq, hp⟩ := Option.map_eq_some_iff.1 h
    obtain ⟨rfl, rfl⟩ := Prod.mk.inj hp
    have hle := ih hq
    simp only [byteLength_cons]
    omega

theorem byteLength_raw? (h : raw? cs = some (value, rest)) :
    byteLength value + byteLength rest ≤ byteLength cs := by
  induction cs generalizing value rest with
  | nil => cases h
  | cons c cs ih =>
    rw [raw?] at h
    split at h
    · cases h
      simp
    · obtain ⟨⟨value, rest⟩, hq, hp⟩ := Option.map_eq_some_iff.1 h
      obtain ⟨rfl, rfl⟩ := Prod.mk.inj hp
      have hle := ih hq
      dsimp only
      split <;> simp only [byteLength_cons] <;> omega

theorem byteLength_value? (h : value? cs = some (value, rest)) :
    byteLength value + byteLength rest ≤ byteLength cs := by
  unfold value? at h
  split at h
  · exact (byteLength_quoted? h).trans (Nat.le_add_left _ _)
  · exact (byteLength_quoted? h).trans (Nat.le_add_left _ _)
  · exact (byteLength_raw? h).trans (Nat.le_add_left _ _)
  · cases h
    rw [← byteLength_append, List.takeWhile_append_dropWhile]

/-- Behind a value more is left only behind a comma. -/
theorem byteLength_afterValue (cs : List Char) :
    afterValue cs = [] ∨ byteLength (afterValue cs) + 1 ≤ byteLength cs := by
  have hle := byteLength_skipSpaces_le cs
  unfold afterValue
  split
  · next rest hskip =>
    have hcomma : ','.utf8Size = 1 := rfl
    rw [hskip, byteLength_cons] at hle
    exact .inr (by omega)
  · exact .inl rfl

theorem byteLength_afterKey? (h : afterKey? cs = some (value, rest)) :
    byteLength value ≤ byteLength cs ∧
      (rest = [] ∨ byteLength value + byteLength rest + 1 ≤ byteLength cs) := by
  have hle := byteLength_skipSpaces_le cs
  unfold afterKey? at h
  split at h
  · cases h
    exact ⟨Nat.zero_le _, .inl rfl⟩
  · next hskip =>
    cases h
    have hcomma : ','.utf8Size = 1 := rfl
    rw [hskip, byteLength_cons] at hle
    simp only [byteLength_nil]
    omega
  · next behind hskip =>
    obtain ⟨⟨value, left⟩, hvalue, hp⟩ := Option.map_eq_some_iff.1 h
    cases hp
    have hequals : '='.utf8Size = 1 := rfl
    have hspaces := byteLength_skipSpaces_le behind
    have hread := byteLength_value? hvalue
    rw [hskip, byteLength_cons] at hle
    rcases byteLength_afterValue left with hnil | hafter
    · exact ⟨by dsimp only; omega, .inl hnil⟩
    · dsimp only
      omega
  · cases h

/-- What an entry has is in front of what is left, and a comma if anything is left. -/
theorem byteLength_entryOf? {e : String × String} (h : entryOf? cs = some (e, rest)) :
    e.1.utf8ByteSize + e.2.utf8ByteSize ≤ byteLength cs ∧
      (rest = [] ∨ e.1.utf8ByteSize + e.2.utf8ByteSize + byteLength rest + 1 ≤ byteLength cs) := by
  have hle := byteLength_skipSpaces_le cs
  have hsplit := congrArg byteLength
    (List.takeWhile_append_dropWhile (p := isKeyChar) (l := skipSpaces cs))
  rw [byteLength_append] at hsplit
  rw [entryOf?] at h
  split at h
  · cases h
  next hkey =>
    obtain ⟨⟨value, left⟩, hvalue, hp⟩ := Option.map_eq_some_iff.1 h
    cases hp
    obtain ⟨hread, hleft⟩ := byteLength_afterKey? hvalue
    simp only [← byteLength_toList, String.toList_ofList]
    exact ⟨by omega, hleft.imp_right fun _ => by omega⟩

/-- The text is its first entry and what is left, again and again. -/
theorem entries_induction {motive : List Char → Prop} (hnone : ∀ cs, entryOf? cs = none → motive cs)
    (hsome : ∀ cs e rest, entryOf? cs = some (e, rest) → motive rest → motive cs) (cs : List Char) :
    motive cs := by
  cases h : entryOf? cs with
  | none => exact hnone cs h
  | some p =>
    obtain ⟨e, rest⟩ := p
    have hlt : byteLength rest < byteLength cs := by
      obtain ⟨hle, hrest⟩ := byteLength_entryOf? h
      have hkey : 0 < e.1.utf8ByteSize :=
        Nat.pos_of_ne_zero (mt String.utf8ByteSize_eq_zero_iff.1 (isKey_of_entryOf? h).ne)
      rcases hrest with rfl | hrest
      · simp only [byteLength_nil]
        omega
      · omega
    exact hsome cs e rest h (entries_induction hnone hsome rest)
termination_by byteLength cs

theorem isKey_of_mem_entries {e : String × String} (he : e ∈ entries cs) : IsKey e.1 := by
  induction cs using entries_induction with
  | hnone cs h =>
    rw [entries_eq_entryOf?, h] at he
    cases he
  | hsome cs e' rest h ih =>
    rw [entries_eq_entryOf?, h] at he
    rcases List.mem_cons.1 he with rfl | he
    · exact isKey_of_entryOf? h
    · exact ih he

/-- The entries of a text are not longer than it, even with a comma between any two. -/
theorem byteLength_entries (cs : List Char) :
    ((entries cs).map fun e => e.1.utf8ByteSize + e.2.utf8ByteSize).sum + (entries cs).length ≤
      byteLength cs + 1 := by
  induction cs using entries_induction with
  | hnone cs h =>
    rw [entries_eq_entryOf?, h]
    exact Nat.zero_le _
  | hsome cs e rest h ih =>
    obtain ⟨hle, hrest⟩ := byteLength_entryOf? h
    rw [entries_eq_entryOf? cs, h, List.map_cons, List.sum_cons, List.length_cons]
    rcases hrest with rfl | hrest
    · have hnil : entries [] = [] := by rw [entries_eq]; rfl
      rw [hnil, List.map_nil, List.sum_nil, List.length_nil]
      omega
    · omega

end GoDecls.Property

namespace GoDecls.Tag

open Property

/-- **Reading the entries of a tag one at a time is safe.**  Whatever the text, every
    stretch of it that is asked for has its ends between characters, so none is missing and
    no call fails; the calls are answered by the entries in order, and from then on by
    nothing.  Every key is one, and the keys and values of the entries, with one byte between
    any two entries, are not longer than the text. -/
theorem properties_reader_safe (t : Tag) :
    (∀ n, ∃ r, (Reader.ofText t.text.toList).calls n =
        .ok ((List.range n).map (t.properties[·]?), r) ∧
      ∀ s ∈ r.asked, Reader.Between t.text.toList s) ∧
    (∀ e ∈ t.properties, IsKey e.1) ∧
    (t.properties.map fun e => e.1.utf8ByteSize + e.2.utf8ByteSize).sum +
      (t.properties.length - 1) ≤ t.text.utf8ByteSize := by
  refine ⟨fun n => ?_, fun e he => isKey_of_mem_entries he, ?_⟩
  · obtain ⟨r, hcalls, hkept⟩ := (Reader.Has.at (Reader.At.ofText t.text.toList)).calls n
    exact ⟨r, hcalls, hkept.asked⟩
  · have hle := byteLength_entries t.text.toList
    rw [Text.byteLength_toList] at hle
    change (t.properties.map _).sum + t.properties.length ≤ _ at hle
    -- without entries there is nothing to subtract from
    cases hall : t.properties with
    | nil => exact Nat.zero_le _
    | cons e es =>
      rw [hall, List.length_cons] at hle
      rw [List.length_cons]
      omega

end GoDecls.Tag

/-
  String literals and the texts they spell.

  * `Item hex w p`: between double quotes `w` stands for the part `p`; `hex` says which
    characters are the digits of an escape in base 16;
  * `StringLiteral hex cs`: the grammar of string literals over these items;
  * `Spells lit cs`: the literal `lit` writes the text `cs`, each character in any of the
    ways there are;
  * `unescape_eq_ok_iff`: the bodies that are read are the rows of items, where a plus
    sign may stand before the digits of an escape in base 16;
  * `unquote_of_spells`: a text is read back from every spelling;
  * `exists_unquote_iff`: what is read are the string literals, with that plus sign.
-/
import Mathlib.Data.List.Forall2
import GoDecls.Literal.Quoted
import GoDecls.Proofs.Literal.Digits
import GoDecls.Proofs.Text.Decode

namespace GoDecls.Literal

variable {hex : List Char → Nat → Prop} {c sel : Char} {cs ds w rest body : List Char}
  {ws : List (List Char)} {p : Part} {ps : List Part} {k n : Nat} {s t : String}

/-! ## The grammar -/

/-- The escapes of one letter between double quotes, and what they stand for. -/
def simpleEscapes : List (Char × Char) := [
  ('a', '\x07'), ('b', '\x08'), ('f', '\x0c'), ('n', '\n'), ('r', '\r'), ('t', '\t'),
  ('v', '\x0b'), ('\\', '\\'), ('"', '"')]

/-- What may stand for one part between double quotes: the character itself, an escape
    of one letter, two digits of base 16 or three of base 8 for a byte, four or eight
    digits of base 16 for a code point, which is no surrogate. -/
inductive Item (hex : List Char → Nat → Prop) : List Char → Part → Prop
  | plain {c : Char} (hc : c ∉ ['"', '\\', '\n']) : Item hex [c] (.char c)
  | simple {sel c : Char} (h : (sel, c) ∈ simpleEscapes) : Item hex ['\\', sel] (.char c)
  | hexByte {ds : List Char} {b : UInt8} (hlen : ds.length = 2) (h : hex ds b.toNat) :
    Item hex ('\\' :: 'x' :: ds) (.byte b)
  | octalByte {ds : List Char} {b : UInt8} (hlen : ds.length = 3) (h : Numeral 8 ds b.toNat) :
    Item hex ('\\' :: ds) (.byte b)
  | short {ds : List Char} {c : Char} (hlen : ds.length = 4) (h : hex ds c.toNat) :
    Item hex ('\\' :: 'u' :: ds) (.char c)
  | long {ds : List Char} {c : Char} (hlen : ds.length = 8) (h : hex ds c.toNat) :
    Item hex ('\\' :: 'U' :: ds) (.char c)

/-- A string literal: a body without backquotes between backquotes, or a row of items
    between double quotes. -/
inductive StringLiteral (hex : List Char → Nat → Prop) : List Char → Prop
  | raw {body : List Char} (h : '\x60' ∉ body) : StringLiteral hex ('\x60' :: (body ++ ['\x60']))
  | interpreted {ws : List (List Char)} {ps : List Part} (h : List.Forall₂ (Item hex) ws ps) :
    StringLiteral hex ('"' :: (ws.flatten ++ ['"']))

/-- A character is spelled by an item that stands for it, or by one escape for each byte
    of its encoding. -/
inductive Spelling (c : Char) : List Char → Prop
  | item {w : List Char} (h : Item (Numeral 16) w (.char c)) : Spelling c w
  | bytes {ws : List (List Char)}
    (h : List.Forall₂ (Item (Numeral 16)) ws ((String.utf8EncodeChar c).map .byte)) :
    Spelling c ws.flatten

/-- The second text is the first with carriage returns put in anywhere. -/
inductive WithReturns : List Char → List Char → Prop
  | nil : WithReturns [] []
  | keep {cs w : List Char} (c : Char) (h : WithReturns cs w) : WithReturns (c :: cs) (c :: w)
  | insert {cs w : List Char} (h : WithReturns cs w) : WithReturns cs ('\r' :: w)

/-- The literal writes the text: between double quotes each character by a spelling of
    its own, between backquotes as it is but for carriage returns. -/
inductive Spells : List Char → List Char → Prop
  | interpreted {cs : List Char} {ws : List (List Char)} (h : List.Forall₂ Spelling cs ws) :
    Spells ('"' :: (ws.flatten ++ ['"'])) cs
  | raw {cs w : List Char} (hquote : '\x60' ∉ cs) (hreturn : '\r' ∉ cs) (h : WithReturns cs w) :
    Spells ('\x60' :: (w ++ ['\x60'])) cs

theorem Item.mono {hex' : List Char → Nat → Prop} (hle : ∀ ds n, hex ds n → hex' ds n)
    (h : Item hex w p) : Item hex' w p := by
  cases h with
  | plain hc => exact .plain hc
  | simple h => exact .simple h
  | hexByte hlen h => exact .hexByte hlen (hle _ _ h)
  | octalByte hlen h => exact .octalByte hlen h
  | short hlen h => exact .short hlen (hle _ _ h)
  | long hlen h => exact .long hlen (hle _ _ h)

/-! ## Escapes -/

theorem simpleEscape?_eq_some_iff :
    simpleEscape? '"' sel = some c ↔ (sel, c) ∈ simpleEscapes := by
  constructor
  · intro h
    unfold simpleEscape? at h
    split at h
    all_goals try (cases h; decide)
    split_ifs at h with hsel
    cases h
    rw [hsel.2]
    decide
  · intro h
    have hall : simpleEscapes.all fun p => simpleEscape? '"' p.1 == some p.2 := by decide
    exact beq_iff_eq.1 (List.all_eq_true.1 hall _ h)

theorem bytePart?_eq_some_iff : bytePart? n = some p ↔ ∃ b : UInt8, p = .byte b ∧ b.toNat = n := by
  unfold bytePart?
  split
  · next h =>
    have hn : (UInt8.ofNat n).toNat = n := UInt8.toNat_ofNat_of_lt' (Nat.lt_succ_of_le h)
    constructor
    · rintro ⟨⟩
      exact ⟨_, rfl, hn⟩
    · rintro ⟨b, rfl, rfl⟩
      rw [UInt8.ofNat_toNat]
  · next h =>
    constructor
    · rintro ⟨⟩
    · rintro ⟨b, -, rfl⟩
      exact absurd (Nat.le_of_lt_succ b.toNat_lt) h

theorem charPart?_eq_some_iff : charPart? n = some p ↔ ∃ c : Char, p = .char c ∧ c.toNat = n := by
  unfold charPart?
  split
  · next h =>
    have hn : (Char.ofNat n).toNat = n := by rw [Char.ofNat, dif_pos h]; rfl
    constructor
    · rintro ⟨⟩
      exact ⟨_, rfl, hn⟩
    · rintro ⟨c, rfl, rfl⟩
      rw [Char.ofNat_toNat]
  · next h =>
    constructor
    · rintro ⟨⟩
    · rintro ⟨c, -, rfl⟩
      exact absurd c.valid h

section FixedPart

variable {α : Type} {part : α → Part} {code : α → Nat} {f : Nat → Option Part} {base j l : Nat}
  (hbase : base ∈ bases) (hf : ∀ {n p}, f n = some p ↔ ∃ a, p = part a ∧ code a = n)
include hbase hf

/-- What an escape with `j` digits stands for: the `a` of that number. -/
theorem fixedPart_eq_some_iff : ((fixedNumeral? base j cs).bind f).map (·, l) = some (p, k) ↔
    l = k ∧ j ≤ cs.length ∧ ∃ a, p = part a ∧ SignedNumeral base (cs.take j) (code a) := by
  simp only [Option.map_eq_some_iff, Option.bind_eq_some_iff, fixedNumeral?_eq_some_iff hbase, hf,
    Prod.mk.injEq]
  constructor
  · rintro ⟨_, ⟨_, ⟨hlen, hn⟩, a, rfl, rfl⟩, rfl, rfl⟩
    exact ⟨rfl, hlen, a, rfl, hn⟩
  · rintro ⟨rfl, hlen, a, rfl, hn⟩
    exact ⟨_, ⟨_, ⟨hlen, hn⟩, a, rfl, rfl⟩, rfl, rfl⟩

theorem fixedPart_append {a : α} (hlen : ds.length = j) (h : SignedNumeral base ds (code a)) :
    ((fixedNumeral? base j (ds ++ rest)).bind f).map (·, l) = some (part a, l) := by
  have htake : (ds ++ rest).take j = ds := List.take_left' hlen
  have hle : j ≤ (ds ++ rest).length := by simp [hlen]
  exact (fixedPart_eq_some_iff hbase hf).2 ⟨rfl, hle, a, rfl, htake.symm ▸ h⟩

end FixedPart

theorem escape?_simple (h : (sel, c) ∈ simpleEscapes) :
    escape? '"' sel rest = some (.char c, 0) := by
  unfold escape?
  rw [simpleEscape?_eq_some_iff.2 h]

theorem escape?_octal (h : sel ∈ digitsOf 8) : escape? '"' sel rest =
    ((fixedNumeral? 8 3 (sel :: rest)).bind bytePart?).map (·, 2) := by
  have hall : ∀ d ∈ digitsOf 8, simpleEscape? '"' d = none ∧ d ≠ 'x' ∧ d ≠ 'u' ∧ d ≠ 'U' ∧
      '0' ≤ d ∧ d ≤ '7' := by decide
  obtain ⟨hsimple, hx, hu, hU, hrange⟩ := hall sel h
  unfold escape?
  rw [hsimple]
  dsimp only
  split
  · exact absurd rfl hx
  · exact absurd rfl hu
  · exact absurd rfl hU
  · rw [if_pos hrange]

/-- An escape that is read is an item. -/
theorem item_of_escape? (h : escape? '"' sel rest = some (p, k)) :
    Item (SignedNumeral 16) ('\\' :: sel :: rest.take k) p := by
  have hbase16 : 16 ∈ bases := by decide
  have hbase8 : 8 ∈ bases := by decide
  unfold escape? at h
  split at h
  · next c hsimple =>
    cases h
    exact .simple (simpleEscape?_eq_some_iff.1 hsimple)
  split at h
  · obtain ⟨rfl, hlen, b, rfl, hdigits⟩ :=
      (fixedPart_eq_some_iff hbase16 bytePart?_eq_some_iff).1 h
    exact .hexByte (List.length_take_of_le hlen) hdigits
  · obtain ⟨rfl, hlen, c, rfl, hdigits⟩ :=
      (fixedPart_eq_some_iff hbase16 charPart?_eq_some_iff).1 h
    exact .short (List.length_take_of_le hlen) hdigits
  · obtain ⟨rfl, hlen, c, rfl, hdigits⟩ :=
      (fixedPart_eq_some_iff hbase16 charPart?_eq_some_iff).1 h
    exact .long (List.length_take_of_le hlen) hdigits
  · obtain ⟨hsel, h⟩ := Option.ite_none_right_eq_some.1 h
    obtain ⟨rfl, hlen, b, rfl, hdigits⟩ :=
      (fixedPart_eq_some_iff hbase8 bytePart?_eq_some_iff).1 h
    refine .octalByte (List.length_take_of_le hlen) ?_
    -- The first of the three digits is the selector, which is no sign.
    rw [List.take_succ_cons] at hdigits
    cases hdigits with
    | bare hdigits => exact hdigits
    | plus _ => exact absurd hsel.1 (by decide)

/-- An item with a backslash is an escape that is read. -/
theorem escape?_of_item (h : Item (SignedNumeral 16) ('\\' :: sel :: ds) p) :
    escape? '"' sel (ds ++ rest) = some (p, ds.length) := by
  have hbase16 : 16 ∈ bases := by decide
  have hbase8 : 8 ∈ bases := by decide
  cases h with
  | simple h => exact escape?_simple h
  | hexByte hlen h =>
    rw [hlen]
    exact fixedPart_append hbase16 bytePart?_eq_some_iff hlen h
  | octalByte hlen h =>
    rw [escape?_octal (h.digits sel List.mem_cons_self), Nat.succ.inj hlen]
    exact fixedPart_append hbase8 bytePart?_eq_some_iff hlen (.bare h)
  | short hlen h =>
    rw [hlen]
    exact fixedPart_append hbase16 charPart?_eq_some_iff hlen h
  | long hlen h =>
    rw [hlen]
    exact fixedPart_append hbase16 charPart?_eq_some_iff hlen h

/-! ## Bodies -/

theorem unescape_plain (hc : c ∉ ['"', '\\', '\n']) :
    unescape '"' (c :: cs) = (unescape '"' cs).map (.char c :: ·) := by
  simp only [List.mem_cons, List.not_mem_nil, or_false, not_or] at hc
  obtain ⟨hquote, hslash, hline⟩ := hc
  have hplain : ¬ (c = '\n' ∨ c = '"') := by
    rintro (h | h)
    · exact hline h
    · exact hquote h
  rw [unescape, if_neg hplain]
  · exact fun h => absurd h hslash
  · exact fun _ _ h => absurd h hslash

theorem unescape_escape (h : escape? '"' sel rest = some (p, k)) :
    unescape '"' ('\\' :: sel :: rest) = (unescape '"' (rest.drop k)).map (p :: ·) := by
  rw [unescape, h]

theorem Item.plain_or_escape (h : Item hex w p) :
    (∃ c, w = [c] ∧ p = .char c ∧ c ∉ ['"', '\\', '\n']) ∨ ∃ sel ds, w = '\\' :: sel :: ds := by
  cases h with
  | plain hc => exact .inl ⟨_, rfl, rfl, hc⟩
  | simple _ => exact .inr ⟨_, _, rfl⟩
  | hexByte _ _ => exact .inr ⟨_, _, rfl⟩
  | octalByte hlen _ =>
    obtain ⟨d, ds, rfl⟩ := List.exists_cons_of_length_eq_add_one hlen
    exact .inr ⟨_, _, rfl⟩
  | short _ _ => exact .inr ⟨_, _, rfl⟩
  | long _ _ => exact .inr ⟨_, _, rfl⟩

/-- An item in front is read as its part. -/
theorem unescape_item (h : Item (SignedNumeral 16) w p) :
    unescape '"' (w ++ rest) = (unescape '"' rest).map (p :: ·) := by
  obtain ⟨c, rfl, rfl, hc⟩ | ⟨sel, ds, rfl⟩ := h.plain_or_escape
  · exact unescape_plain hc
  · rw [List.cons_append, List.cons_append, unescape_escape (escape?_of_item h), List.drop_left]

theorem unescape_of_items (h : List.Forall₂ (Item (SignedNumeral 16)) ws ps) :
    unescape '"' ws.flatten = .ok ps := by
  induction h with
  | nil => rw [List.flatten_nil, unescape]
  | cons h _ ih =>
    rw [List.flatten_cons, unescape_item h, ih]
    rfl

theorem exists_of_map_eq_ok {ε α β : Type} {x : Except ε α} {f : α → β} {b : β}
    (h : x.map f = .ok b) : ∃ a, x = .ok a ∧ f a = b := by
  cases x with
  | error e => cases h
  | ok a =>
    cases h
    exact ⟨a, rfl, rfl⟩

theorem items_of_unescape (h : unescape '"' cs = .ok ps) :
    ∃ ws, cs = ws.flatten ∧ List.Forall₂ (Item (SignedNumeral 16)) ws ps := by
  fun_induction unescape '"' cs generalizing ps with
  | case1 =>
    cases h
    exact ⟨[], rfl, .nil⟩
  | case2 => cases h
  | case3 => cases h
  | case4 sel rest part k hescape ih =>
    obtain ⟨ps, hrest, rfl⟩ := exists_of_map_eq_ok h
    obtain ⟨ws, hws, hitems⟩ := ih hrest
    refine ⟨('\\' :: sel :: rest.take k) :: ws, ?_, .cons (item_of_escape? hescape) hitems⟩
    rw [List.flatten_cons, ← hws, List.cons_append, List.cons_append, List.take_append_drop]
  | case5 => cases h
  | case6 c cs hend hescape hplain ih =>
    obtain ⟨ps, hrest, rfl⟩ := exists_of_map_eq_ok h
    obtain ⟨ws, hws, hitems⟩ := ih hrest
    refine ⟨[c] :: ws, by rw [List.flatten_cons, ← hws]; rfl, .cons (.plain ?_) hitems⟩
    have hslash : c ≠ '\\' := by
      rintro rfl
      cases cs with
      | nil => exact hend rfl rfl
      | cons sel rest => exact hescape sel rest rfl rfl
    simp only [List.mem_cons, List.not_mem_nil, or_false, not_or]
    exact ⟨fun h => hplain (.inr h), hslash, fun h => hplain (.inl h)⟩

/-- **The bodies that are read are the rows of items**, where a plus sign may stand
    before the digits of an escape in base 16. -/
theorem unescape_eq_ok_iff : unescape '"' cs = .ok ps ↔
    ∃ ws, cs = ws.flatten ∧ List.Forall₂ (Item (SignedNumeral 16)) ws ps := by
  refine ⟨items_of_unescape, ?_⟩
  rintro ⟨ws, rfl, h⟩
  exact unescape_of_items h

/-! ## Literals -/

theorem enclosed?_eq_some_iff : enclosed? cs = some (c, body) ↔ cs = c :: (body ++ [c]) := by
  constructor
  · intro h
    cases cs with
    | nil => cases h
    | cons d cs =>
      obtain ⟨hlast, hbody⟩ := Option.ite_none_right_eq_some.1 h
      cases hbody
      obtain ⟨front, rfl⟩ := List.getLast?_eq_some_iff.1 hlast
      rw [List.dropLast_concat]
  · rintro rfl
    simp [enclosed?]

theorem unquote_quoted (hs : s.toList = '"' :: (body ++ ['"'])) : unquote s =
    (unescape '"' body).map fun ps => String.ofList (Text.decodeLossy (ps.flatMap Part.bytes)) := by
  rw [unquote, enclosed?_eq_some_iff.2 hs]
  rfl

theorem unquote_raw (hs : s.toList = '\x60' :: (body ++ ['\x60'])) : unquote s =
    if '\x60' ∈ body then .error .invalidChar
    else .ok (String.ofList (body.filter (· ≠ '\r'))) := by
  rw [unquote, enclosed?_eq_some_iff.2 hs]
  rfl

/-- Nothing is read but what stands between two backquotes or two double quotes. -/
theorem enclosed_of_unquote (h : unquote s = .ok t) : ∃ body,
    s.toList = '\x60' :: (body ++ ['\x60']) ∨ s.toList = '"' :: (body ++ ['"']) := by
  unfold unquote at h
  split at h
  · next body henclosed => exact ⟨body, .inl (enclosed?_eq_some_iff.1 henclosed)⟩
  · next body henclosed => exact ⟨body, .inr (enclosed?_eq_some_iff.1 henclosed)⟩
  · cases h

/-! ## Spellings -/

/-- The items of a spelling stand for the bytes of the character. -/
theorem Spelling.items (h : Spelling c w) : ∃ ws ps, w = ws.flatten ∧
    List.Forall₂ (Item (Numeral 16)) ws ps ∧ ps.flatMap Part.bytes = String.utf8EncodeChar c := by
  cases h with
  | item h => exact ⟨[w], [.char c], by simp, .cons h .nil, by simp [Part.bytes]⟩
  | @bytes ws h =>
    refine ⟨ws, _, rfl, h, ?_⟩
    rw [List.flatMap_map]
    exact List.flatMap_singleton' _

theorem items_of_spellings (h : List.Forall₂ Spelling cs ws) : ∃ vs ps, ws.flatten = vs.flatten ∧
    List.Forall₂ (Item (Numeral 16)) vs ps ∧ ps.flatMap Part.bytes = Text.encode cs := by
  induction h with
  | nil => exact ⟨[], [], rfl, .nil, rfl⟩
  | cons h _ ih =>
    obtain ⟨vs, ps, hvs, hitems, hbytes⟩ := h.items
    obtain ⟨vs', ps', hvs', hitems', hbytes'⟩ := ih
    refine ⟨vs ++ vs', ps ++ ps', ?_, List.rel_append hitems hitems', ?_⟩
    · rw [List.flatten_cons, List.flatten_append, hvs, hvs']
    · rw [List.flatMap_append, hbytes, hbytes', Text.encode, Text.encode, List.flatMap_cons]

/-- Between double quotes each character is read back from its spelling. -/
theorem unquote_of_spellings (hs : s.toList = '"' :: (ws.flatten ++ ['"']))
    (h : List.Forall₂ Spelling cs ws) : unquote s = .ok (String.ofList cs) := by
  obtain ⟨vs, ps, hvs, hitems, hbytes⟩ := items_of_spellings h
  have hread : List.Forall₂ (Item (SignedNumeral 16)) vs ps :=
    hitems.imp fun _ _ => Item.mono fun _ _ => .bare
  rw [unquote_quoted hs, hvs, unescape_of_items hread]
  change Except.ok (String.ofList (Text.decodeLossy (ps.flatMap Part.bytes))) = _
  rw [hbytes, Text.decodeLossy_encode]

theorem WithReturns.filter (h : WithReturns cs w) (hreturn : '\r' ∉ cs) :
    w.filter (· ≠ '\r') = cs := by
  induction h with
  | nil => rfl
  | keep c _ ih =>
    have hc : c ≠ '\r' := (List.ne_of_not_mem_cons hreturn).symm
    rw [List.filter_cons_of_pos (by simpa using hc), ih (List.not_mem_of_not_mem_cons hreturn)]
  | insert _ ih => rw [List.filter_cons_of_neg (by decide), ih hreturn]

theorem WithReturns.not_mem (h : WithReturns cs w) (hc : c ∉ cs) (hreturn : c ≠ '\r') : c ∉ w := by
  induction h with
  | nil => exact hc
  | keep d _ ih =>
    exact List.not_mem_cons_of_ne_of_not_mem (List.ne_of_not_mem_cons hc)
      (ih (List.not_mem_of_not_mem_cons hc))
  | insert _ ih => exact List.not_mem_cons_of_ne_of_not_mem hreturn (ih hc)

/-- **A text is read back from every literal that spells it.** -/
theorem unquote_of_spells {lit text : String} (h : Spells lit.toList text.toList) :
    unquote lit = .ok text := by
  generalize hlit : lit.toList = w, htext : text.toList = cs at h
  cases h with
  | interpreted h =>
    obtain ⟨vs, ps, hvs, hitems, hbytes⟩ := items_of_spellings h
    have hread : List.Forall₂ (Item (SignedNumeral 16)) vs ps :=
      hitems.imp fun _ _ => Item.mono fun _ _ => .bare
    rw [unquote_quoted hlit, hvs, unescape_of_items hread]
    change Except.ok (String.ofList (Text.decodeLossy (ps.flatMap Part.bytes))) = _
    rw [hbytes, Text.decodeLossy_encode, ← htext, String.ofList_toList]
  | raw hquote hreturn h =>
    rw [unquote_raw hlit, if_neg (h.not_mem hquote (by decide)), h.filter hreturn, ← htext,
      String.ofList_toList]

/-- Escapes for bytes, a code point and a single letter beside a character that stands
    for itself, and a raw string with a carriage return in it. -/
theorem unquote_of_spells_mixed :
    (Spells "\"\\303\\xA9€\\n\\U0001f600\"".toList "é€\n😀".toList ∧
      unquote "\"\\303\\xA9€\\n\\U0001f600\"" = .ok "é€\n😀") ∧
    Spells "\x60a\r\nb\x60".toList "a\nb".toList ∧ unquote "\x60a\r\nb\x60" = .ok "a\nb" := by
  have hbytes : Spelling 'é' ["\\303".toList, "\\xA9".toList].flatten :=
    .bytes (.cons (.octalByte rfl ⟨by decide, by decide, by decide⟩)
      (.cons (.hexByte rfl ⟨by decide, by decide, by decide⟩) .nil))
  have hlong : Spelling '😀' "\\U0001f600".toList :=
    .item (.long rfl ⟨by decide, by decide, by decide⟩)
  have hquoted : Spells "\"\\303\\xA9€\\n\\U0001f600\"".toList "é€\n😀".toList :=
    .interpreted (.cons hbytes (.cons (.item (.plain (by decide)))
      (.cons (.item (.simple (show ('n', '\n') ∈ simpleEscapes by decide))) (.cons hlong .nil))))
  have hraw : Spells "\x60a\r\nb\x60".toList "a\nb".toList :=
    .raw (by decide) (by decide) (.keep 'a' (.insert (.keep '\n' (.keep 'b' .nil))))
  exact ⟨⟨hquoted, unquote_of_spells hquoted⟩, hraw, unquote_of_spells hraw⟩

/-- **What is read are the string literals**, where a plus sign may stand before the
    digits of an escape in base 16; every other text is an error. -/
theorem exists_unquote_iff {s : String} :
    (∃ text, unquote s = .ok text) ↔ StringLiteral (SignedNumeral 16) s.toList := by
  constructor
  · rintro ⟨text, h⟩
    obtain ⟨body, hs | hs⟩ := enclosed_of_unquote h
    · rw [unquote_raw hs] at h
      rw [hs]
      split_ifs at h with hbody
      exact .raw hbody
    · rw [unquote_quoted hs] at h
      obtain ⟨ps, hps, -⟩ := exists_of_map_eq_ok h
      obtain ⟨ws, rfl, hitems⟩ := items_of_unescape hps
      exact hs ▸ .interpreted hitems
  · intro h
    generalize hs : s.toList = cs at h
    cases h with
    | raw hbody => exact ⟨_, (unquote_raw hs).trans (if_neg hbody)⟩
    | interpreted h => exact ⟨_, (unquote_quoted hs).trans (by rw [unescape_of_items h]; rfl)⟩

/-- A row of items that begins with an escape for a byte goes on with its two digits. -/
theorem digits_of_items (h : List.Forall₂ (Item hex) ws ps)
    (hws : ws.flatten = '\\' :: 'x' :: cs) : ∃ n, hex (cs.take 2) n := by
  cases h with
  | nil => cases hws
  | cons hitem _ =>
    rw [List.flatten_cons] at hws
    cases hitem with
    | plain hc =>
      obtain rfl := (List.cons.inj hws).1
      exact absurd (by decide) hc
    | simple hsel =>
      obtain rfl := (List.cons.inj (List.cons.inj hws).2).1
      simp [simpleEscapes] at hsel
    | hexByte hlen hdigits =>
      have hcs := (List.cons.inj (List.cons.inj hws).2).2
      rw [← hcs]
      exact ⟨_, (List.take_left' hlen).symm ▸ hdigits⟩
    | @octalByte ds _ hlen hdigits =>
      obtain ⟨d, ds, rfl⟩ := List.exists_cons_of_length_eq_add_one hlen
      cases hws
      exact absurd (hdigits.digits _ List.mem_cons_self) (by decide)
    | short _ _ => cases hws
    | long _ _ => cases hws

/-- A plus sign is taken for a digit of an escape, but is none. -/
theorem unquote_plus : unquote "\"\\x+5\"" = .ok "\x05" ∧
    ¬ StringLiteral (Numeral 16) "\"\\x+5\"".toList := by
  constructor
  · have hitem : Item (SignedNumeral 16) "\\x+5".toList (.byte 5) :=
      .hexByte rfl (.plus ⟨by decide, by decide, by decide⟩)
    have hbody : unescape '"' "\\x+5".toList = .ok [.byte 5] :=
      unescape_of_items (.cons hitem .nil)
    rw [unquote_quoted (show _ = '"' :: ("\\x+5".toList ++ ['"']) from rfl), hbody]
    rfl
  · intro h
    generalize hs : "\"\\x+5\"".toList = cs at h
    cases h with
    | raw _ => cases hs
    | interpreted h =>
      have hws := (List.append_cancel_right (List.cons.inj hs).2 : "\\x+5".toList = _)
      obtain ⟨n, hdigits⟩ := digits_of_items h hws.symm
      exact absurd List.mem_cons_self hdigits.plus_not_mem

end GoDecls.Literal

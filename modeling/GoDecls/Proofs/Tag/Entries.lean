/-
  Entries of properties as they are written.

  * `WrittenValue w cs`: the text `cs` stands for the value `w`, bare or between quotes of
    one of the three kinds;
  * `WrittenEntry e cs`: the text `cs` is the entry, with blanks in every place that has
    room for them;
  * `Written es cs`: the text `cs` are the entries with commas between them, and perhaps
    one behind the last;
  * `value?_append`, `afterKey?_append`, `entries_append`: what is written is read in front
    of all that may follow it;
  * `properties_of_written`: written entries are read back.
-/
import GoDecls.Proofs.Literal.Quoted
import GoDecls.Tag.Property

namespace GoDecls.Property

open Literal (WithReturns)

variable {b b' cs rest t value w : List Char} {q : Char}

/-! ## Writing -/

/-- The text are spaces and tabs. -/
def Blanks (cs : List Char) : Prop := ∀ c ∈ cs, c ∈ [' ', '\t']

instance (cs : List Char) : Decidable (Blanks cs) := Scan.decidableForallMem

/-- The text is a key: there is something in it, but no blank, no equals sign and no
    comma. -/
structure IsKey (key : String) : Prop where
  ne : key ≠ ""
  chars : ∀ c ∈ key.toList, c ∉ [' ', '\t', '=', ',']

/-- A character between quotes stands for itself or behind a backslash; the quote and the
    backslash need one. -/
inductive WrittenChar (q c : Char) : List Char → Prop
  | plain (hc : c ∉ [q, '\\']) : WrittenChar q c [c]
  | escaped : WrittenChar q c ['\\', c]

/-- The text stands for the value: bare, between single or double quotes, or between
    backquotes with carriage returns anywhere. -/
inductive WrittenValue (value : List Char) : List Char → Prop
  | bare (hchars : ∀ c ∈ value, ' ' < c ∧ c ≠ ',')
    (hquote : ∀ c ∈ value.head?, c ∉ ['"', '\'', '\x60']) : WrittenValue value value
  | quoted {q : Char} {ws : List (List Char)} (hq : q ∈ ['"', '\''])
    (h : List.Forall₂ (WrittenChar q) value ws) : WrittenValue value (q :: (ws.flatten ++ [q]))
  | raw {w : List Char} (hquote : '\x60' ∉ value) (hreturn : '\r' ∉ value)
    (h : WithReturns value w) : WrittenValue value ('\x60' :: (w ++ ['\x60']))

/-- What stands behind a key that has the value: nothing but blanks, which stand for the
    empty value, or an equals sign and the value with blanks around them. -/
inductive WrittenTail : List Char → List Char → Prop
  | flag {b : List Char} (hb : Blanks b) : WrittenTail [] b
  | value {value b₁ b₂ w b₃ : List Char} (hb₁ : Blanks b₁) (hb₂ : Blanks b₂)
    (h : WrittenValue value w) (hb₃ : Blanks b₃) :
    WrittenTail value (b₁ ++ '=' :: (b₂ ++ (w ++ b₃)))

/-- The text is the key and the value of the entry. -/
inductive WrittenEntry : String × String → List Char → Prop
  | intro {key value : String} {b t : List Char} (hb : Blanks b) (hkey : IsKey key)
    (h : WrittenTail value.toList t) : WrittenEntry (key, value) (b ++ (key.toList ++ t))

/-- What may stand behind the last entry. -/
inductive Ending : List Char → Prop
  | none : Ending []
  | comma {b : List Char} (hb : Blanks b) : Ending (',' :: b)

/-- The text are the entries, with commas between them. -/
inductive Written : List (String × String) → List Char → Prop
  | intro {es : List (String × String)} {ws : List (List Char)} {e : List Char}
    (h : List.Forall₂ WrittenEntry es ws) (he : Ending e) :
    Written es (List.intercalate [','] ws ++ e)

/-- Where an entry ends: nothing follows, or a comma. -/
def Ends (rest : List Char) : Prop := ∀ c ∈ rest.head?, c = ','

/-! ## Reading up to a stop -/

theorem isSpace_iff {c : Char} : isSpace c = true ↔ c ∈ [' ', '\t'] := by
  simp [isSpace]

theorem isKeyChar_iff {c : Char} : isKeyChar c = true ↔ c ∉ [' ', '\t', '=', ','] := by
  simp [isKeyChar, isSpace, and_assoc]

theorem isBareChar_iff {c : Char} : isBareChar c = true ↔ ' ' < c ∧ c ≠ ',' := by
  simp [isBareChar]

section

variable {P : Char → Bool}

theorem takeWhile_append (hcs : ∀ c ∈ cs, P c = true) (hrest : ∀ c ∈ rest.head?, P c = false) :
    (cs ++ rest).takeWhile P = cs := by
  rw [List.takeWhile_append_of_pos hcs]
  cases rest with
  | nil => simp
  | cons c rest =>
    rw [List.takeWhile_cons_of_neg (by simp [hrest c rfl]), List.append_nil]

theorem dropWhile_append (hcs : ∀ c ∈ cs, P c = true) (hrest : ∀ c ∈ rest.head?, P c = false) :
    (cs ++ rest).dropWhile P = rest := by
  rw [List.dropWhile_append_of_pos hcs]
  cases rest with
  | nil => rfl
  | cons c rest => rw [List.dropWhile_cons_of_neg (by simp [hrest c rfl])]

end

theorem skipSpaces_append (hb : Blanks b) (hrest : ∀ c ∈ rest.head?, c ∉ [' ', '\t']) :
    skipSpaces (b ++ rest) = rest :=
  dropWhile_append (fun c hc => isSpace_iff.2 (hb c hc)) fun c hc => by
    rw [Bool.eq_false_iff, Ne, isSpace_iff]
    exact hrest c hc

theorem Ends.not_blank (h : Ends rest) : ∀ c ∈ rest.head?, c ∉ [' ', '\t'] := by
  intro c hc
  rw [h c hc]
  decide

/-- Behind blanks comes what follows them, if no blank comes first. -/
theorem head?_append (hb : Blanks b) :
    ∀ c ∈ (b ++ rest).head?, c ∈ [' ', '\t'] ∨ c ∈ rest.head? := by
  intro c hc
  cases b with
  | nil => exact .inr hc
  | cons d b =>
    cases hc
    exact .inl (hb c List.mem_cons_self)

/-! ## Values -/

theorem quoted?_quote : quoted? q (q :: cs) = some ([], cs) := by
  rw [quoted?.eq_def]
  exact if_pos rfl

theorem quoted?_plain {c : Char} (hc : c ∉ [q, '\\']) :
    quoted? q (c :: cs) = (quoted? q cs).map fun p => (c :: p.1, p.2) := by
  simp only [List.mem_cons, List.not_mem_nil, or_false, not_or] at hc
  rw [quoted?.eq_def]
  exact (if_neg hc.1).trans (if_neg hc.2)

theorem quoted?_escaped (hq : q ≠ '\\') (c : Char) :
    quoted? q ('\\' :: c :: cs) = (quoted? q cs).map fun p => (c :: p.1, p.2) := by
  rw [quoted?.eq_def]
  exact (if_neg hq.symm).trans (if_pos rfl)

theorem quoted?_append (hq : q ≠ '\\') {ws : List (List Char)}
    (h : List.Forall₂ (WrittenChar q) value ws) :
    quoted? q (ws.flatten ++ q :: rest) = some (value, rest) := by
  induction h with
  | nil => exact quoted?_quote
  | @cons c w value ws hc _ ih =>
    rw [List.flatten_cons, List.append_assoc]
    cases hc with
    | plain hc => rw [List.singleton_append, quoted?_plain hc, ih, Option.map_some]
    | escaped =>
      rw [List.cons_append, List.singleton_append, quoted?_escaped hq, ih, Option.map_some]

theorem raw?_append (h : '\x60' ∉ w) :
    raw? (w ++ '\x60' :: rest) = some (w.filter (· ≠ '\r'), rest) := by
  induction w with
  | nil => rfl
  | cons c w ih =>
    rw [List.cons_append, raw?, if_neg (List.ne_of_not_mem_cons h).symm,
      ih (List.not_mem_of_not_mem_cons h), Option.map_some, List.filter_cons]
    by_cases hc : c = '\r' <;> simp [hc]

theorem value?_bare (hquote : ∀ c ∈ cs.head?, c ∉ ['"', '\'', '\x60']) :
    value? cs = some (cs.takeWhile isBareChar, cs.dropWhile isBareChar) := by
  unfold value?
  split
  · exact absurd (by decide) (hquote _ rfl)
  · exact absurd (by decide) (hquote _ rfl)
  · exact absurd (by decide) (hquote _ rfl)
  · rfl

/-- The value is read up to what follows it, blanks and the end of the entry. -/
theorem value?_append (h : WrittenValue value w) (hb : Blanks b) (hrest : Ends rest) :
    value? (w ++ (b ++ rest)) = some (value, b ++ rest) := by
  cases h with
  | bare hchars hquote =>
    have hstop : ∀ c ∈ (b ++ rest).head?, isBareChar c = false ∧ c ∉ ['"', '\'', '\x60'] := by
      intro c hc
      have hmem : c ∈ [' ', '\t', ','] := by
        rcases head?_append hb c hc with h | h
        · exact List.mem_append_left [','] h
        · simp [hrest c h]
      have hall : [' ', '\t', ','].all fun c => !isBareChar c && c ∉ ['"', '\'', '\x60'] := by
        decide
      simpa using List.all_eq_true.1 hall c hmem
    have hbare : ∀ c ∈ value, isBareChar c = true := fun c hc => isBareChar_iff.2 (hchars c hc)
    have hfront : ∀ c ∈ (value ++ (b ++ rest)).head?, c ∉ ['"', '\'', '\x60'] := by
      cases value with
      | nil => exact fun c hc => (hstop c hc).2
      | cons d value => exact hquote
    have hstop := fun c hc => (hstop c hc).1
    rw [value?_bare hfront, takeWhile_append hbare hstop, dropWhile_append hbare hstop]
  | @quoted q ws hq h =>
    rw [List.cons_append, List.append_assoc]
    rcases List.mem_pair.1 hq with rfl | rfl
    · exact quoted?_append (by decide) h
    · exact quoted?_append (by decide) h
  | @raw w hquote hreturn h =>
    rw [List.cons_append, List.append_assoc, List.singleton_append]
    have hw : '\x60' ∉ w := h.not_mem hquote (by decide)
    refine (raw?_append hw).trans ?_
    rw [h.filter hreturn]

/-- No value begins with a blank. -/
theorem WrittenValue.not_blank (h : WrittenValue value w) : ∀ c ∈ w.head?, c ∉ [' ', '\t'] := by
  intro c hc
  cases h with
  | bare hchars _ =>
    have hlt := (hchars c (List.mem_of_mem_head? hc)).1
    rintro hblank
    rcases List.mem_pair.1 hblank with rfl | rfl
    · exact absurd hlt (by decide)
    · exact absurd hlt (by decide)
  | quoted hq _ =>
    cases hc
    rcases List.mem_pair.1 hq with rfl | rfl <;> decide
  | raw _ _ _ =>
    cases hc
    decide

/-- Blanks before a value are skipped; before an empty one also those behind it. -/
theorem value?_skipSpaces (hb : Blanks b) (h : WrittenValue value w) (hb' : Blanks b')
    (hrest : Ends rest) : ∃ b₀, Blanks b₀ ∧
      value? (skipSpaces (b ++ (w ++ (b' ++ rest)))) = some (value, b₀ ++ rest) := by
  cases w with
  | nil =>
    have hblanks : Blanks (b ++ b') := List.forall_mem_append.2 ⟨hb, hb'⟩
    have hskip : skipSpaces (b ++ ([] ++ (b' ++ rest))) = rest := by
      rw [List.nil_append, ← List.append_assoc, skipSpaces_append hblanks hrest.not_blank]
    rw [hskip]
    exact ⟨[], List.forall_mem_nil _, value?_append h (List.forall_mem_nil _) hrest⟩
  | cons c w =>
    have hskip : skipSpaces (b ++ (c :: w ++ (b' ++ rest))) = c :: w ++ (b' ++ rest) :=
      skipSpaces_append hb h.not_blank
    rw [hskip]
    exact ⟨b', hb', value?_append h hb' hrest⟩

/-! ## Entries -/

theorem afterValue_append (hb : Blanks b) (h : Ends rest) : afterValue (b ++ rest) = rest.tail := by
  rw [afterValue, skipSpaces_append hb h.not_blank]
  cases rest with
  | nil => rfl
  | cons c rest =>
    obtain rfl := h c rfl
    rfl

theorem afterKey?_append (h : WrittenTail value t) (hrest : Ends rest) :
    afterKey? (t ++ rest) = some (value, rest.tail) := by
  cases h with
  | flag hb =>
    rw [afterKey?, skipSpaces_append hb hrest.not_blank]
    cases rest with
    | nil => rfl
    | cons c rest =>
      obtain rfl := hrest c rfl
      rfl
  | @value _ b₁ b₂ w b₃ hb₁ hb₂ h hb₃ =>
    obtain ⟨b, hb, hvalue⟩ := value?_skipSpaces hb₂ h hb₃ hrest
    have hassoc : b₁ ++ '=' :: (b₂ ++ (w ++ b₃)) ++ rest =
        b₁ ++ '=' :: (b₂ ++ (w ++ (b₃ ++ rest))) := by simp
    have hequals : ∀ c ∈ ('=' :: (b₂ ++ (w ++ (b₃ ++ rest)))).head?, c ∉ [' ', '\t'] := by
      rintro _ ⟨⟩
      decide
    rw [hassoc, afterKey?, skipSpaces_append hb₁ hequals]
    change (value? (skipSpaces (b₂ ++ (w ++ (b₃ ++ rest))))).map _ = _
    rw [hvalue, Option.map_some, afterValue_append hb hrest]

/-- Behind a key stands no character of a key. -/
theorem WrittenTail.stop (h : WrittenTail value t) (hrest : Ends rest) :
    ∀ c ∈ (t ++ rest).head?, isKeyChar c = false := by
  intro c hc
  have hmem : c ∈ [' ', '\t'] ∨ c ∈ ['=', ','] := by
    cases h with
    | flag hb =>
      refine (head?_append hb c hc).imp_right fun h => ?_
      simp [hrest c h]
    | value hb _ _ _ =>
      rw [List.append_assoc] at hc
      refine (head?_append hb c hc).imp_right fun h => ?_
      cases h
      decide
  have hall : [' ', '\t', '=', ','].all (!isKeyChar ·) := by decide
  simpa using List.all_eq_true.1 hall c (List.mem_append.2 hmem)

theorem entries_eq (cs : List Char) : entries cs =
    match skipSpaces cs with
    | [] => []
    | c :: rest =>
      if isKeyChar c then
        match afterKey? (rest.dropWhile isKeyChar) with
        | none => []
        | some (value, left) =>
          (String.ofList (c :: rest.takeWhile isKeyChar), String.ofList value) :: entries left
      else [] := by
  rw [entries]
  split
  · next hskip => simp only [hskip]
  · next hskip =>
    split
    · next hc =>
      split
      · next hafter => simp only [hskip, hc, hafter, if_true]
      · next hafter => simp only [hskip, hc, hafter, if_true]
    · next hc => simp only [hskip, if_neg hc]

theorem entries_append {e : String × String} (h : WrittenEntry e w) (hrest : Ends rest) :
    entries (w ++ rest) = e :: entries rest.tail := by
  cases h with
  | @intro key value b t hb hkey h =>
    obtain ⟨c, ks, hks⟩ :=
      List.exists_cons_of_ne_nil fun h => hkey.ne (String.toList_eq_nil_iff.1 h)
    have hchars : ∀ d ∈ c :: ks, isKeyChar d = true := fun d hd =>
      isKeyChar_iff.2 (hkey.chars d (hks ▸ hd))
    obtain ⟨hc, hall⟩ := List.forall_mem_cons.1 hchars
    have hskip : skipSpaces (b ++ (key.toList ++ t) ++ rest) = c :: (ks ++ (t ++ rest)) := by
      rw [hks, List.append_assoc, List.append_assoc]
      refine skipSpaces_append hb fun d hd => ?_
      cases hd
      exact fun h => isKeyChar_iff.1 hc (List.mem_append_left ['=', ','] h)
    have hread := afterKey?_append h hrest
    rw [← dropWhile_append hall (h.stop hrest)] at hread
    rw [entries_eq, hskip]
    dsimp only
    rw [if_pos hc, hread, takeWhile_append hall (h.stop hrest), ← hks]
    simp only [String.ofList_toList]

theorem entries_blanks (hb : Blanks b) : entries b = [] := by
  have hskip : skipSpaces b = [] :=
    List.dropWhile_eq_nil_iff.2 fun c hc => isSpace_iff.2 (hb c hc)
  rw [entries_eq, hskip]

theorem entries_comma (cs : List Char) : entries (',' :: cs) = [] := by
  rw [entries_eq]
  exact if_neg (by decide)

theorem Ending.entries (h : Ending cs) : entries cs = [] ∧ Ends cs ∧ entries cs.tail = [] := by
  cases h with
  | none =>
    have hnil := entries_blanks (List.forall_mem_nil _)
    exact ⟨hnil, nofun, hnil⟩
  | comma hb => exact ⟨entries_comma _, by rintro _ ⟨⟩; rfl, entries_blanks hb⟩

theorem entries_of_written {es : List (String × String)} (h : Written es cs) :
    Property.entries cs = es := by
  cases h with
  | @intro ws e h he =>
    obtain ⟨hend, hends, htail⟩ := he.entries
    induction h with
    | nil => exact hend
    | @cons _ w _ ws hw hws ih =>
      cases hws with
      | nil => rw [List.intercalate_singleton, entries_append hw hends, htail]
      | cons h hws =>
        have hcomma : ∀ rest : List Char, Ends (',' :: rest) := by
          rintro _ _ ⟨⟩
          rfl
        rw [List.intercalate_cons_cons, List.append_assoc, List.append_assoc,
          List.singleton_append, entries_append hw (hcomma _), List.tail_cons, ih]

end GoDecls.Property

namespace GoDecls.Tag

open Property

/-- **Written entries are read back**, keys and values in order, and nothing else. -/
theorem properties_of_written {es : List (String × String)} {t : Tag}
    (h : Written es t.text.toList) : t.properties = es :=
  entries_of_written h

/-- A flag, a bare value with an equals sign, a quoted value with a comma and with a
    backslash before a character that needs none, and a raw one, with blanks around them. -/
theorem properties_of_written_mixed :
    let t : Tag := ⟨" a\t,b = x=y ,c='it\\'s, \\é',d=\x60\r\\\x60, "⟩
    let es := [("a", ""), ("b", "x=y"), ("c", "it's, é"), ("d", "\\")]
    Written es t.text.toList ∧ t.properties = es := by
  intro t es
  have hflag : WrittenEntry ("a", "") " a\t".toList :=
    @WrittenEntry.intro "a" "" [' '] ['\t'] (by decide) ⟨by decide, by decide⟩ (.flag (by decide))
  have hbare : WrittenValue "x=y".toList "x=y".toList :=
    .bare (by decide) (by rintro _ ⟨⟩; decide)
  have hquoted : WrittenValue "it's, é".toList "'it\\'s, \\é'".toList :=
    @WrittenValue.quoted _ '\'' [['i'], ['t'], ['\\', '\''], ['s'], [','], [' '], ['\\', 'é']]
      (by decide) <| .cons (.plain (by decide)) <| .cons (.plain (by decide)) <| .cons .escaped <|
        .cons (.plain (by decide)) <| .cons (.plain (by decide)) <|
          .cons (.plain (by decide)) <| .cons .escaped .nil
  have hraw : WrittenValue "\\".toList "\x60\r\\\x60".toList :=
    @WrittenValue.raw _ ['\r', '\\'] (by decide) (by decide) (.insert (.keep '\\' .nil))
  have hb : WrittenEntry ("b", "x=y") "b = x=y ".toList :=
    @WrittenEntry.intro "b" "x=y" [] _ (by decide) ⟨by decide, by decide⟩
      (@WrittenTail.value _ [' '] [' '] _ [' '] (by decide) (by decide) hbare (by decide))
  have hc : WrittenEntry ("c", "it's, é") "c='it\\'s, \\é'".toList :=
    @WrittenEntry.intro "c" "it's, é" [] _ (by decide) ⟨by decide, by decide⟩
      (@WrittenTail.value _ [] [] _ [] (by decide) (by decide) hquoted (by decide))
  have hd : WrittenEntry ("d", "\\") "d=\x60\r\\\x60".toList :=
    @WrittenEntry.intro "d" "\\" [] _ (by decide) ⟨by decide, by decide⟩
      (@WrittenTail.value _ [] [] _ [] (by decide) (by decide) hraw (by decide))
  have hwritten : Written es _ :=
    .intro (.cons hflag (.cons hb (.cons hc (.cons hd .nil)))) (@Ending.comma [' '] (by decide))
  have htext : List.intercalate [','] [" a\t".toList, "b = x=y ".toList,
      "c='it\\'s, \\é'".toList, "d=\x60\r\\\x60".toList] ++ [',', ' '] = t.text.toList := by
    decide +kernel
  rw [htext] at hwritten
  exact ⟨hwritten, properties_of_written hwritten⟩

end GoDecls.Tag

/-
  Properties of a tag: its text read as entries `key` or `key=value`, separated
  by commas.

  A value is bare, or stands between quotes of one of three kinds.  Reading ends
  at the first entry that is malformed; an entry followed by anything but a comma
  counts, but is the last.
-/
import GoDecls.Tag.Basic

namespace GoDecls.Property

/-- A blank between the parts of an entry. -/
def isSpace (c : Char) : Bool := c == ' ' || c == '\t'

/-- A character of a key. -/
def isKeyChar (c : Char) : Bool := !(isSpace c || c == '=' || c == ',')

/-- A character of a bare value. -/
def isBareChar (c : Char) : Bool := ' ' < c && c != ','

/-- The text without the blanks at its front. -/
def skipSpaces (cs : List Char) : List Char := cs.dropWhile isSpace

/-- A value up to its closing quote, and what follows.  A backslash takes the
    next character as it is. -/
def quoted? (quote : Char) : List Char → Option (List Char × List Char)
  | [] => none
  | c :: cs =>
    if c = quote then some ([], cs)
    else if c = '\\' then
      match cs with
      | [] => none
      | d :: ds => (quoted? quote ds).map fun p => (d :: p.1, p.2)
    else (quoted? quote cs).map fun p => (c :: p.1, p.2)

/-- A value up to the closing backquote, without carriage returns, and what
    follows. -/
def raw? : List Char → Option (List Char × List Char)
  | [] => none
  | c :: cs =>
    if c = '\x60' then some ([], cs)
    else (raw? cs).map fun p => (if c = '\r' then p.1 else c :: p.1, p.2)

/-- The value at the front of a text, and what follows. -/
def value? : List Char → Option (List Char × List Char)
  | '"' :: cs => quoted? '"' cs
  | '\'' :: cs => quoted? '\'' cs
  | '\x60' :: cs => raw? cs
  | cs => some (cs.takeWhile isBareChar, cs.dropWhile isBareChar)

/-- What is left of the entries behind a value: the text behind a comma, and
    nothing behind anything else. -/
def afterValue (cs : List Char) : List Char :=
  match skipSpaces cs with
  | ',' :: rest => rest
  | _ => []

/-- The value and what is left of the entries, behind a key. -/
def afterKey? (cs : List Char) : Option (List Char × List Char) :=
  match skipSpaces cs with
  | [] => some ([], [])
  | ',' :: rest => some ([], rest)
  | '=' :: rest => (value? (skipSpaces rest)).map fun p => (p.1, afterValue p.2)
  | _ => none

theorem length_skipSpaces_le (cs : List Char) : (skipSpaces cs).length ≤ cs.length :=
  (List.dropWhile_suffix _).length_le

theorem length_of_quoted? {quote : Char} {cs : List Char} {p : List Char × List Char}
    (h : quoted? quote cs = some p) : p.2.length ≤ cs.length := by
  fun_induction quoted? quote cs generalizing p with
  | case1 => simp at h
  | case2 => simp [← Option.some.inj h]
  | case3 => simp at h
  | case4 d ds _ ih =>
    obtain ⟨q, hq, rfl⟩ := Option.map_eq_some_iff.1 h
    have := ih hq
    simp only [List.length_cons]
    omega
  | case5 c cs _ _ ih =>
    obtain ⟨q, hq, rfl⟩ := Option.map_eq_some_iff.1 h
    have := ih hq
    simp only [List.length_cons]
    omega

theorem length_of_raw? {cs : List Char} {p : List Char × List Char} (h : raw? cs = some p) :
    p.2.length ≤ cs.length := by
  induction cs generalizing p with
  | nil => simp [raw?] at h
  | cons c cs ih =>
    simp only [raw?] at h
    split at h
    · simp [← Option.some.inj h]
    · obtain ⟨q, hq, rfl⟩ := Option.map_eq_some_iff.1 h
      have := ih hq
      simp only [List.length_cons]
      omega

theorem length_of_value? {cs : List Char} {p : List Char × List Char} (h : value? cs = some p) :
    p.2.length ≤ cs.length := by
  unfold value? at h
  split at h
  · exact Nat.le_succ_of_le (length_of_quoted? h)
  · exact Nat.le_succ_of_le (length_of_quoted? h)
  · exact Nat.le_succ_of_le (length_of_raw? h)
  · simp only [Option.some.injEq] at h
    exact h ▸ (List.dropWhile_suffix _).length_le

theorem length_afterValue_le (cs : List Char) : (afterValue cs).length ≤ cs.length := by
  have h := length_skipSpaces_le cs
  unfold afterValue
  split
  · next rest e => simp only [e, List.length_cons] at h; omega
  · simp

theorem length_of_afterKey? {cs : List Char} {p : List Char × List Char}
    (h : afterKey? cs = some p) : p.2.length ≤ cs.length := by
  have hs := length_skipSpaces_le cs
  unfold afterKey? at h
  split at h
  · simp_all [← Option.some.inj h]
  · next e =>
    simp only [e, List.length_cons] at hs
    simp only [← Option.some.inj h]
    omega
  · next r e =>
    obtain ⟨q, hq, rfl⟩ := Option.map_eq_some_iff.1 h
    have h1 := length_of_value? hq
    have h2 := length_afterValue_le q.2
    have h3 := length_skipSpaces_le r
    simp only [e, List.length_cons] at hs
    simp only
    omega
  · simp at h

/-- The entries of a text, in order. -/
def entries (cs : List Char) : List (String × String) :=
  match _hs : skipSpaces cs with
  | [] => []
  | c :: rest =>
    if isKeyChar c then
      match _hk : afterKey? (rest.dropWhile isKeyChar) with
      | none => []
      | some (value, left) =>
        (String.ofList (c :: rest.takeWhile isKeyChar), String.ofList value) :: entries left
    else []
termination_by cs.length
decreasing_by
  have h1 := length_skipSpaces_le cs
  have h2 := length_of_afterKey? _hk
  have h3 := (List.dropWhile_suffix (l := rest) isKeyChar).length_le
  simp only [_hs, List.length_cons] at h1
  simp only at h2
  omega

end GoDecls.Property

namespace GoDecls.Tag

/-- The entries of the tag, in order. -/
def properties (t : Tag) : List (String × String) := Property.entries t.text.toList

/-- The value of the first entry with this key; an entry without value has the
    empty one. -/
def property? (t : Tag) (key : String) : Option String :=
  (t.properties.find? (·.1 = key)).map Prod.snd

/-- There is an entry with this key. -/
def hasProperty (t : Tag) (key : String) : Bool := (t.property? key).isSome

/-- A value that says yes: the empty one, `1`, and `true` and `yes` in any ASCII
    case. -/
def saysYes (value : String) : Bool :=
  value == "" || value == "1" || value.toLower == "true" || value.toLower == "yes"

/-- The first entry with this key is there and says yes. -/
def boolProperty (t : Tag) (key : String) : Bool := (t.property? key).any saysYes

end GoDecls.Tag

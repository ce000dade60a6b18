/-
  Tag texts: pairs `key:"value"` with spaces between.

  A key is a run of characters above the space other than the colon, the double
  quote and DEL.  Scanning ends at the first pair that is not delimited so; a
  pair whose value does not unquote is passed over.
-/
import GoDecls.Literal.Quoted
import GoDecls.Tag.Basic

namespace GoDecls.TagText

/-- A character of a key. -/
def isKeyChar (c : Char) : Bool :=
  ' ' < c && c != ':' && c != '"' && c != '\x7f'

/-- The number of characters up to and with the closing quote; a backslash takes
    the next character with it. -/
def valueExtent : List Char → Option Nat
  | [] => none
  | '\\' :: [] => none
  | '\\' :: _ :: cs => (valueExtent cs).map (· + 2)
  | c :: cs => if c = '"' then some 1 else (valueExtent cs).map (· + 1)

/-- The key and the literal at the front of a text, and their number of
    characters. -/
def pair? (cs : List Char) : Option ((String × String) × Nat) :=
  let key := cs.takeWhile isKeyChar
  match cs.drop key.length with
  | ':' :: '"' :: rest =>
    if key.isEmpty then none
    else (valueExtent rest).map fun n =>
      ((String.ofList key, String.ofList ('"' :: rest.take n)), key.length + 2 + n)
  | _ => none

/-- The keys and literals of a text, in order. -/
def pairs (cs : List Char) : List (String × String) :=
  match _h : cs.dropWhile (· = ' ') with
  | [] => []
  | c :: rest =>
    match pair? (c :: rest) with
    | none => []
    | some (p, n) => p :: pairs (rest.drop (n - 1))
termination_by cs.length
decreasing_by
  have h := (List.dropWhile_suffix (l := cs) (· = ' ')).length_le
  simp only [_h, List.length_cons] at h
  simp only [List.length_drop]
  omega

/-- The tag of a key and a literal, if the literal unquotes. -/
def decode? (p : String × String) : Option (String × Tag) :=
  match Literal.unquote p.2 with
  | .ok value => some (p.1, ⟨value⟩)
  | .error _ => none

/-- The tags of a text, in order, with repeated keys. -/
def tagList (text : String) : List (String × Tag) :=
  (pairs text.toList).filterMap decode?

/-- The tag set of a text. -/
def scan (text : String) : Tags := .ofList (tagList text)

end GoDecls.TagText

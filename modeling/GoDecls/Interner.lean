/-
  Interning of texts: equal texts get the same symbol, different ones different
  symbols, and a symbol gives its text back.

  Symbols are found through a hash of the text.  The hash may be any function;
  texts with the same hash share a bucket.
-/
import Std.Data.HashMap

namespace GoDecls

/-- What stands for an interned text. -/
structure Symbol where
  number : UInt32
deriving DecidableEq, Repr

/-- The texts by symbol, and the symbols by the hash of their text. -/
structure Interner (hash : String → UInt64) where
  texts : Array String
  buckets : Std.HashMap UInt64 (List Symbol)

namespace Interner

variable {hash : String → UInt64}

/-- The interner that has no texts. -/
def empty : Interner hash := ⟨#[], {}⟩

/-- The text of a symbol, if the interner has made it. -/
def text? (t : Interner hash) (s : Symbol) : Option String := t.texts[s.number.toNat]?

/-- The text of a symbol, empty for one that the interner has not made. -/
def resolve (t : Interner hash) (s : Symbol) : String := (t.text? s).getD ""

/-- The symbols of the texts with this hash. -/
def bucket (t : Interner hash) (h : UInt64) : List Symbol := t.buckets.getD h []

/-- The symbol of a text; a new one if the text has none. -/
def intern (t : Interner hash) (text : String) : Symbol × Interner hash :=
  let h := hash text
  match (t.bucket h).find? (t.text? · = some text) with
  | some s => (s, t)
  | none =>
    let s : Symbol := ⟨UInt32.ofNat t.texts.size⟩
    (s, ⟨t.texts.push text, t.buckets.insert h (t.bucket h ++ [s])⟩)

/-- The symbols of texts that are interned in turn. -/
def internAll (t : Interner hash) : List String → List Symbol × Interner hash
  | [] => ([], t)
  | x :: xs =>
    let (s, t') := t.intern x
    let (ss, t'') := t'.internAll xs
    (s :: ss, t'')

end Interner

end GoDecls

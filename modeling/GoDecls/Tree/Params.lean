/-
  Lists of parameters and results.  All entries of a list are named or none is:
  if one has both a name and a type, bare names share the type that follows them
  (`a, b int`); if none has, bare names are types (`int, error`).
-/
import GoDecls.Diagnostic
import GoDecls.Tree.Basic

namespace GoDecls.Tree

/-- An entry of a list as it is written. -/
inductive Param where
  /-- a name, or a type that is a name -/
  | bare (name : Ident)
  | typed (span : Span) (name : Option Ident) (ellipsis : Option Span) (type : TypeExpr)
deriving Repr

namespace Param

/-- The entry has both a name and a type. -/
def isNamed : Param → Bool
  | .typed _ (some _) _ _ => true
  | _ => false

/-- A field without names. -/
def anonymous (span : Span) (ellipsis : Option Span) (type : TypeExpr) : Field :=
  ⟨span, [], ellipsis, type, none, false⟩

/-- The entry as a field without names. -/
def toAnonymous : Param → Field
  | .bare name => anonymous name.span none (.named name.span none name [])
  | .typed span _ ellipsis type => anonymous span ellipsis type

/-- The fields of a list with names; `pending` are the bare names before. -/
def toNamed (pending : List Ident) : List Param → Except Diagnostic (List Field)
  | [] =>
    match pending.getLast? with
    | none => .ok []
    | some name => .error ⟨name.span, .parse .mixedParameters⟩
  | .bare name :: ps => toNamed (pending ++ [name]) ps
  | .typed span name ellipsis type :: ps =>
    let start := (pending.head?.map (·.span.start)).getD span.start
    let field : Field :=
      ⟨⟨start, span.stop⟩, pending ++ name.toList, ellipsis, type, none, false⟩
    (toNamed [] ps).map (field :: ·)

/-- The fields of a list. -/
def toFields (ps : List Param) : Except Diagnostic (List Field) :=
  if ps.any isNamed then toNamed [] ps else .ok (ps.map toAnonymous)

end Param

end GoDecls.Tree

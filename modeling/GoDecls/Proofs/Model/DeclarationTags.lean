/-
  The tags of declarations.

  * `taggedLines file text p`: the lines that the tags of a type spec are read from, those
    of the text of the doc comment of its declaration before those of the comment behind
    it.  Between parentheses the doc comment is that of the group; a spec's own has no
    part in it;
  * `tagsOfLines_gathered`: the tags are gathered from the lines, line by line;
  * `SourceUnit.tags_of_ofText`: so it is for every declaration of a source text;
  * `comment_follows_type`: only blanks and carriage returns stand between a declared type
    and the comment behind it.
-/
import GoDecls.Proofs.Comment.Beside
import GoDecls.Proofs.Model.Declared
import GoDecls.Proofs.Tag.Gathered
import GoDecls.Proofs.Tree.Attached

namespace GoDecls.Model

open Tags

/-- The lines that the tags of a type spec are read from. -/
def taggedLines (file : Tree.SourceFile) (text : List Char)
    (p : Tree.DeclHead × Tree.TypeSpec) : List (List Char) :=
  commentLines file text p.1.doc ++ commentLines file text p.2.comment

/-- The tags on the lines, line by line. -/
def lineTags (lines : List (List Char)) : List Tags :=
  lines.map fun l => TagText.scan (String.ofList (Text.trim l))

/-- **The tags of lines are gathered from the lines.** -/
theorem tagsOfLines_gathered (lines : List (List Char)) :
    Gathered (lineTags lines) (tagsOfLines lines) := by
  induction lines using List.reverseRecOn with
  | nil => exact .nil
  | append_singleton lines l ih =>
    rw [lineTags, List.map_append, tagsOfLines, List.foldl_append]
    exact gathered_extend ih

/-! ## Where the comments stand -/

/-- The declaration of the type spec has the group of comments that ends right above its
    keyword, and the spec the one that begins behind its type on the same line, if there
    are such groups. -/
structure Noted (file : Tree.SourceFile) (l : Layout) (p : Tree.DeclHead × Tree.TypeSpec) :
    Prop where
  doc : ∀ i, p.1.doc = some i ↔
    ∃ g, file.comments[i]? = some g ∧ l.Documents g p.1.keyword.start
  comment : ∀ i, p.2.comment = some i ↔
    ∃ g, file.comments[i]? = some g ∧ l.Annotates g p.2.type.span.stop

theorem attachments_of_mem_typeSpecs {file : Tree.SourceFile}
    {p : Tree.DeclHead × Tree.TypeSpec} (hp : p ∈ typeSpecs file) :
    ⟨.doc p.1.keyword.start, p.1.doc⟩ ∈ file.attachments ∧
      ⟨.line p.2.type.span.stop, p.2.comment⟩ ∈ file.attachments := by
  obtain ⟨d, hd, hmem⟩ := List.mem_flatMap.1 hp
  have hsub : ∀ a ∈ d.attachments, a ∈ file.attachments := fun a ha =>
    List.mem_cons_of_mem _ (List.mem_flatMap.2 ⟨d, hd, ha⟩)
  cases d with
  | types head specs =>
    obtain ⟨spec, hspec, rfl⟩ := List.mem_map.1 hmem
    refine ⟨hsub _ List.mem_cons_self, hsub _ (List.mem_cons_of_mem _ ?_)⟩
    refine List.mem_flatMap.2 ⟨spec.notes, List.mem_map_of_mem hspec, ?_⟩
    rw [Tree.SpecNotes.attachments]
    split
    · exact List.mem_cons_of_mem _ (List.mem_singleton_self _)
    · exact List.mem_singleton_self _
  | _ => cases hmem

theorem noted_of_ofText {text : List Char} {file : Tree.SourceFile}
    (hlimit : Text.byteLength text ≤ Span.limit) (h : Tree.SourceFile.ofText text = .ok file)
    {p : Tree.DeclHead × Tree.TypeSpec} (hp : p ∈ typeSpecs file) :
    Noted file (Layout.of text (Lexer.ofText text).run.1 (Lexer.ofText text).run.2.comments) p := by
  have hcommented := Tree.SourceFile.commented_layout hlimit h
  obtain ⟨hdoc, hcomment⟩ := attachments_of_mem_typeSpecs hp
  exact ⟨hcommented.only _ hdoc, hcommented.only _ hcomment⟩

/-! ## Units -/

/-- **The tags of a declared type are those on the lines of its comments, and the last one
    under a key counts.**  The tags of every type spec of a source file have the keys that
    are found on some line of the text of the doc comment of its declaration or of the
    comment behind it, in the order in which they first come there, and under each key the
    tag that comes last.  In a unit of the file, the declarations of the specs that are kept
    have these tags.  If the text is not too long for its spans, the doc comment is the group
    of comments right above the keyword of the declaration, and the other one the group on
    the line where the declared type ends. -/
theorem SourceUnit.tags_of_ofText {text : String} {file : Tree.SourceFile}
    (h : Tree.SourceFile.ofText text.toList = .ok file) :
    (∀ p ∈ typeSpecs file,
      Gathered (lineTags (taggedLines file text.toList p))
        (declarationTags file text.toList p.1 p.2) ∧
      ∀ key, (declarationTags file text.toList p.1 p.2).has key = true ↔
        ∃ l ∈ taggedLines file text.toList p,
          (TagText.scan (String.ofList (Text.trim l))).has key = true) ∧
    (∀ filename module u, ofText text filename module = .ok u →
      List.Forall₂ (fun p d => d.name = p.2.name.text ∧
          d.tags = declarationTags file text.toList p.1 p.2)
        ((typeSpecs file).filter (·.2.isKept)) u.declarations) ∧
    (Text.byteLength text.toList ≤ Span.limit → ∀ p ∈ typeSpecs file,
      Noted file (Layout.of text.toList (Lexer.ofText text.toList).run.1
        (Lexer.ofText text.toList).run.2.comments) p) := by
  refine ⟨fun p _ => ?_, fun filename module u hu => ?_, fun hlimit p hp =>
    noted_of_ofText hlimit h hp⟩
  · have hgathered := tagsOfLines_gathered (taggedLines file text.toList p)
    refine ⟨hgathered, fun key => (hgathered.has_iff key).trans ?_⟩
    simp only [lineTags, List.mem_map, exists_exists_and_eq_and]
  · obtain ⟨file', hfile', -, hspecs⟩ := file_of_ofText hu
    obtain rfl : file' = file := Except.ok.inj (hfile'.symm.trans h)
    exact (row_of_ofText h hspecs).imp fun p d hd => ⟨hd.name, hd.tags⟩

/-- A group of two types under one doc comment that repeats a key, with a doc comment of
    its own and a comment behind it at the first. -/
theorem SourceUnit.tags_of_ofText_group :
    let text := "package p\n\n// a:\"1\" b:\"2\"\n//go:x\n//\n// a:\"3\" c:bad\ntype (\n\t// d:\"4\"\n" ++
      "\tS int // b:\"5\" e:\"6\"\n\tT int\n)\n"
    ∃ file u, Tree.SourceFile.ofText text.toList = .ok file ∧ ofText text "p.go" .none = .ok u ∧
      u.declarations.map (fun d => (d.name, d.tags.entries.map fun e => (e.1, e.2.text))) =
        [("S", [("a", "3"), ("b", "5"), ("e", "6")]), ("T", [("a", "3"), ("b", "2")])] ∧
      ∀ p ∈ typeSpecs file, Gathered (lineTags (taggedLines file text.toList p))
        (declarationTags file text.toList p.1 p.2) := by
  intro text
  have htags : ((ofText text "p.go" .none).toOption.map fun u =>
      u.declarations.map fun d => (d.name, d.tags.entries.map fun e => (e.1, e.2.text))) =
        some [("S", [("a", "3"), ("b", "5"), ("e", "6")]), ("T", [("a", "3"), ("b", "2")])] := by
    decide +kernel
  cases hu : ofText text "p.go" .none with
  | error e =>
    rw [hu] at htags
    cases htags
  | ok u =>
    rw [hu] at htags
    obtain ⟨file, hfile, -⟩ := file_of_ofText hu
    have hall := (tags_of_ofText hfile).1
    exact ⟨file, u, hfile, rfl, Option.some.inj htags, fun p hp => (hall p hp).1⟩

/-! ## Before the comment behind a type -/

/-- **No line ends between a declared type and the comment behind it, but at carriage
    returns.**  In a text that is not too long for its spans, only blanks and carriage
    returns stand between the end of a declared type and the group of comments that its
    tags are read from, and where a semicolon is inserted there, it is at a carriage
    return. -/
theorem comment_follows_type {text : List Char} {file : Tree.SourceFile}
    (hlimit : Text.byteLength text ≤ Span.limit) (h : Tree.SourceFile.ofText text = .ok file)
    {p : Tree.DeclHead × Tree.TypeSpec} (hp : p ∈ typeSpecs file) {i : Nat}
    (hi : p.2.comment = some i) :
    ∃ g front gap back, file.comments[i]? = some g ∧ text = front ++ (gap ++ back) ∧
      Text.byteLength front = p.2.type.span.stop ∧
      Text.byteLength (front ++ gap) = g.span.start ∧
      (∀ c ∈ gap, Scan.isSpace c = true ∨ c = '\r') ∧
      ∀ t ∈ (Lexer.ofText text).run.1, t.isInserted = true → p.2.type.span.stop ≤ t.start →
        t.start < g.span.start → '\r' ∈ gap := by
  have hlex := (Tree.SourceFile.ofText_eq_ok_iff.1 h).1
  have hcommented := Tree.SourceFile.commented_layout hlimit h
  have hnotes := (attachments_of_mem_typeSpecs hp).2
  obtain ⟨t, ht, hstop⟩ := hcommented.onToken _ hnotes
  obtain ⟨g, hg, hbeside⟩ := (hcommented.only _ hnotes i).1 hi
  have hmem := hcommented.comments ▸ List.mem_of_getElem? hg
  simp only [Role.At] at hstop
  simp only [Role.Fits] at hbeside
  rw [← hstop] at hbeside ⊢
  obtain ⟨front, gap, back, htext, hfront, hgap, hblanks⟩ :=
    hbeside.exists_gap hlimit hlex hmem ht
  refine ⟨g, front, gap, back, hg, htext, hfront, hgap, hblanks, fun q hq hinserted hlo hhi => ?_⟩
  rw [← hfront] at hlo
  rw [← hgap] at hhi
  exact mem_of_inserted htext hblanks hq hinserted hlo hhi

theorem comment_follows_type_blanks :
    let text := "package p\ntype A int \t// x:\"1\"\n".toList
    Text.byteLength text ≤ Span.limit ∧ ∃ file p, Tree.SourceFile.ofText text = .ok file ∧
      p ∈ typeSpecs file ∧ p.2.comment = some 0 ∧
      ∃ g front gap back, file.comments[0]? = some g ∧ text = front ++ (gap ++ back) ∧
        Text.byteLength front = p.2.type.span.stop ∧
        Text.byteLength (front ++ gap) = g.span.start ∧
        ∀ c ∈ gap, Scan.isSpace c = true ∨ c = '\r' := by
  intro text
  have hlimit : Text.byteLength text ≤ Span.limit := by decide +kernel
  have hnotes : ((Tree.SourceFile.ofText text).toOption.map fun file =>
      (typeSpecs file).map (·.2.comment)) = some [some 0] := by decide +kernel
  cases hfile : Tree.SourceFile.ofText text with
  | error e =>
    rw [hfile] at hnotes
    cases hnotes
  | ok file =>
    rw [hfile] at hnotes
    obtain ⟨p, hp, hcomment⟩ := List.map_eq_singleton_iff.1 (Option.some.inj hnotes)
    have hmem : p ∈ typeSpecs file := hp ▸ List.mem_singleton_self p
    obtain ⟨g, front, gap, back, hg, htext, hfront, hgap, hblanks, -⟩ :=
      comment_follows_type hlimit hfile hmem hcomment
    exact ⟨hlimit, file, p, rfl, hmem, hcomment, g, front, gap, back, hg, htext, hfront, hgap,
      hblanks⟩

/-- Behind a carriage return, and the semicolon that is inserted there, a comment still goes
    to the type before, and so do its tags. -/
theorem comment_behind_carriage_return :
    let text := "package p\ntype A int\r// x:\"1\"\n"
    .inserted 20 ∈ (Lexer.ofText text.toList).run.1 ∧
    (∃ file p g, Tree.SourceFile.ofText text.toList = .ok file ∧ typeSpecs file = [p] ∧
      p.2.type.span.stop = 20 ∧ p.2.comment = some 0 ∧ file.comments = [g] ∧ g.span.start = 21) ∧
    ((SourceUnit.ofText text "f.go" .none).toOption.map fun u =>
      u.declarations.map fun d => (d.name, d.tags.entries.map fun e => (e.1, e.2.text))) =
        some [("A", [("x", "1")])] := by
  intro text
  refine ⟨by decide +kernel, ?_, by decide +kernel⟩
  have hnotes : ((Tree.SourceFile.ofText text.toList).toOption.map fun file =>
      ((typeSpecs file).map fun p => (p.2.type.span.stop, p.2.comment),
        file.comments.map (·.span.start))) = some ([(20, some 0)], [21]) := by decide +kernel
  cases hfile : Tree.SourceFile.ofText text.toList with
  | error e =>
    rw [hfile] at hnotes
    cases hnotes
  | ok file =>
    rw [hfile] at hnotes
    obtain ⟨hspecs, hcomments⟩ := Prod.mk.inj (Option.some.inj hnotes)
    obtain ⟨p, hp, hspec⟩ := List.map_eq_singleton_iff.1 hspecs
    obtain ⟨g, hg, hstart⟩ := List.map_eq_singleton_iff.1 hcomments
    obtain ⟨hstop, hcomment⟩ := Prod.mk.inj hspec
    exact ⟨file, p, g, rfl, hp, hstop, hcomment, hg, hstart⟩

end GoDecls.Model

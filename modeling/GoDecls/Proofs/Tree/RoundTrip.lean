/-
  Printing a type and reading the tokens gives the type back.

  * `TypeExpr.Canonical.readsBack`: by induction over the type, one lemma of the
    readers a case;
  * `type_undoes_render`: the statement for a cursor on any list of tokens that begins
    with those of a canonical type.
-/
import GoDecls.Proofs.Tree.ReadInterface

namespace GoDecls.Tree

variable {m : Manner}

/-- **A canonical type reads back**, if what follows does not go on with it. -/
theorem TypeExpr.Canonical.readsBack {T : TypeExpr} (hT : T.Canonical m) : ReadsBack m T := by
  induction hT with
  | @intro T here below ih =>
    have hparts : ∀ S ∈ T.parts, S.Canonical m ∧ ReadsBack m S := fun S hS => ⟨below S hS, ih S hS⟩
    cases T with
    | named _ _ _ args => exact readsBack_named ih
    | pointer _ _ elem => exact readsBack_pointer (ih elem (List.mem_singleton_self elem))
    | array _ _ elem => exact readsBack_array here (ih elem (List.mem_singleton_self elem))
    | slice _ elem => exact readsBack_slice (ih elem (List.mem_singleton_self elem))
    | map _ key value =>
      exact readsBack_map (ih key List.mem_cons_self) (ih value (by simp [parts]))
    | chan _ _ elem => exact readsBack_chan here (ih elem (List.mem_singleton_self elem))
    | struct _ fields =>
      exact readsBack_struct here (fun f hf => below _ (List.mem_map_of_mem hf))
        fun f hf => ih _ (List.mem_map_of_mem hf)
    | interface _ elems =>
      exact readsBack_interface here fun e he S hS => hparts S (List.mem_flatMap.2 ⟨e, he, hS⟩)
    | func _ _ => exact readsBack_func here hparts
    | paren _ inner => exact readsBack_paren (ih inner (List.mem_singleton_self inner))

/-- **Reading undoes printing.**  On tokens that begin with those of a canonical
    type, with nothing behind them that goes on with a type, the reader takes
    exactly those and gives the type, but for its places. -/
theorem type_undoes_render {T : TypeExpr} (hT : T.Canonical m) {c : Cursor}
    {front rest : List Lexeme} (hc : c.rest = front ++ rest)
    (hfront : front.map Lexeme.token = T.render m)
    (hrest : ∀ l ∈ rest.head?, l.token ≠ .punct .dot ∧ l.token.startsType = false) :
    ∃ t d moved, c.type = .ok t d moved ∧ d.rest = rest ∧ t.unplaced = T.unplaced := by
  obtain ⟨t, d, moved, ho, ht, hd⟩ := hT.readsBack ⟨front, hc, hfront⟩ hrest
  exact ⟨t, d, moved, ho, hd, ht⟩

/-- `struct { buf []T; List[T] }` before a separator: a name with a bracket behind
    it, once the name of a field and once an embedded type. -/
theorem type_undoes_render_struct :
    let name : String → List TypeExpr → TypeExpr := (.named .zero none ⟨·, .zero⟩)
    let T : TypeExpr := .struct .zero
      [⟨.zero, [⟨"buf", .zero⟩], none, .slice .zero (name "T" []), none, false⟩,
        ⟨.zero, [], none, name "List" [name "T" []], none, true⟩]
    let front : List Lexeme := [.keyword .struct, .punct .lbrace, .ident "buf", .punct .lbrack,
      .punct .rbrack, .ident "T", .punct .semi, .ident "List", .punct .lbrack, .ident "T",
      .punct .rbrack, .punct .rbrace].map (⟨0, ·, 0⟩)
    let rest : List Lexeme := [⟨0, .punct .semi, 0⟩]
    T.Canonical ⟨fun _ => [], false⟩ ∧
      ∃ t d moved, (Cursor.mk (front ++ rest) 0 0).type = .ok t d moved ∧ d.rest = rest ∧
        t.unplaced = T.unplaced := by
  intro name T front rest
  have hname : ∀ s args, (∀ S ∈ args, S.Canonical ⟨fun _ => [], false⟩) →
      (name s args).Canonical ⟨fun _ => [], false⟩ := fun _ _ h => .intro trivial h
  have hT₀ := hname "T" [] nofun
  have hslice : (TypeExpr.slice .zero (name "T" [])).Canonical ⟨fun _ => [], false⟩ :=
    .intro trivial (List.forall_mem_singleton.2 hT₀)
  have hlist := hname "List" [name "T" []] (List.forall_mem_singleton.2 hT₀)
  have hT : T.Canonical ⟨fun _ => [], false⟩ :=
    .intro
      (List.forall_mem_cons.2 ⟨⟨rfl, rfl, nofun, nofun⟩,
        List.forall_mem_singleton.2 ⟨rfl, rfl, fun _ => rfl, nofun⟩⟩)
      (List.forall_mem_cons.2 ⟨hslice, List.forall_mem_singleton.2 hlist⟩)
  refine ⟨hT, type_undoes_render hT rfl rfl fun l hl => ?_⟩
  cases hl
  exact ⟨nofun, rfl⟩

end GoDecls.Tree

/-
  Reading by index always moves on.

  * `Moves toks P m`: wherever among the tokens the reader begins, it ends, not before that
    place nor beyond the tokens, and takes no token at an index that has none; with a value
    that `P` holds of, it is further on;
  * `ReadsAs toks m o`: the reader does what that of cursors does, and moves on;
  * `LoopsBy toks loop round`: the loop goes through these rounds, and one that another is
    to follow has moved on;
  * `reading_progresses`: every reader that has a value has moved on, and so has every loop
    that goes on, and recovery; hence a file is read to its end, by index as by cursor.
-/
import GoDecls.Proofs.Indexed.File

namespace GoDecls.Indexed

open Tree

/-- Where a reader ends that began at the index `i`. -/
structure Ends {α : Type} (toks : Tokens) (P : α → Prop) (i : Nat) (r : Except Stop α)
    (q : Position) : Prop where
  inRange : r ≠ .error .outOfRange
  le : i ≤ q.index
  le_length : q.index ≤ toks.list.length
  lt : ∀ a, r = .ok a → P a → i < q.index

/-- From `p` the reader ends, as one that began at the index `i`. -/
def Reaches {α : Type} (toks : Tokens) (P : α → Prop) (m : Read α) (i : Nat) (p : Position) :
    Prop :=
  ∃ r q, m.run p = some (r, q) ∧ Ends toks P i r q

/-- The reader ends wherever it begins, and is further on with a value that `P` holds of. -/
def Moves {α : Type} (toks : Tokens) (P : α → Prop) (m : Read α) : Prop :=
  ∀ p : Position, p.index ≤ toks.list.length → Reaches toks P m p.index p

/-- The reader is further on with every value. -/
abbrev Advances {α : Type} (toks : Tokens) (m : Read α) : Prop :=
  Moves toks (fun _ => True) m

/-- The reader does what that of cursors does, and moves on. -/
structure ReadsAs {α : Type} (toks : Tokens) (m : Read α) (o : (c : Cursor) → Outcome α c) :
    Prop where
  follows : ∀ c, Follows toks m c (o c)
  advances : Advances toks m

/-- The loop goes through the rounds, and one that another is to follow has moved on. -/
structure LoopsBy {α : Type} (toks : Tokens) (loop : Read (List α)) (round : Read (Round α)) :
    Prop where
  eq : loop = do
    match ← round with
    | .done a => return a.toList
    | .again a => return a.toList ++ (← loop)
  moves : Moves toks Round.goesOn round

variable {α β : Type} {toks : Tokens} {layout : Layout} {c d : Cursor} {p q : Position} {i : Nat}
  {P : α → Prop} {Q : β → Prop} {m : Read α} {f : α → Read β}

/-! ## Readers that move -/

namespace Reaches

theorem pure {a : α} (hi : i ≤ p.index) (hp : p.index ≤ toks.list.length)
    (hlt : P a → i < p.index) : Reaches toks P (pure a) i p := by
  refine ⟨.ok a, p, rfl, nofun, hi, hp, fun b hb hP => ?_⟩
  cases hb
  exact hlt hP

theorem bind (h : Reaches toks P m i p)
    (hf : ∀ a q, i ≤ q.index → q.index ≤ toks.list.length → (P a → i < q.index) →
      Reaches toks Q (f a) i q) : Reaches toks Q (m >>= f) i p := by
  obtain ⟨r, q, hrun, hends⟩ := h
  cases r with
  | ok a =>
    rw [Reaches, Read.run_bind_ok hrun]
    exact hf a q hends.le hends.le_length (hends.lt a rfl)
  | error stop =>
    have hstop : stop ≠ .outOfRange := fun h => hends.inRange (congrArg _ h)
    exact ⟨.error stop, q, Read.run_bind_error hrun, fun h => hstop (Except.error.inj h),
      hends.le, hends.le_length, nofun⟩

/-- What comes first leaves the position where it is. -/
theorem stays {a : α} (h : m.run p = some (.ok a, p)) (hf : Reaches toks Q (f a) i p) :
    Reaches toks Q (m >>= f) i p := by
  rwa [Reaches, Read.run_bind_ok h]

end Reaches

/-- A reader that moves does so behind another. -/
theorem Moves.reaches (h : Moves toks P m) {P' : α → Prop} (hi : i ≤ p.index)
    (hp : p.index ≤ toks.list.length) (hP : ∀ a, P' a → i < p.index ∨ P a) :
    Reaches toks P' m i p := by
  obtain ⟨r, q, hrun, hends⟩ := h p hp
  refine ⟨r, q, hrun, hends.inRange, Nat.le_trans hi hends.le, hends.le_length, fun a ha hP' => ?_⟩
  obtain hlt | hPa := hP a hP'
  · exact Nat.lt_of_lt_of_le hlt hends.le
  · exact Nat.lt_of_le_of_lt hi (hends.lt a ha hPa)

/-! ## Cursors -/

/-- Every place among the tokens is that of a cursor. -/
theorem at_drop (h : p.index ≤ toks.list.length) :
    At toks ⟨toks.list.drop p.index, p.last, toks.size⟩ p :=
  ⟨h, rfl, rfl, rfl⟩

theorem At.index_le_index (hp : At toks c p) (hq : At toks d q) (h : d.left ≤ c.left) :
    p.index ≤ q.index := by
  have hpi := hp.index_le
  have hqi := hq.index_le
  rw [hp.left_eq, hq.left_eq] at h
  omega

theorem At.index_lt_index (hp : At toks c p) (hq : At toks d q) (h : d.left < c.left) :
    p.index < q.index := by
  have hpi := hp.index_le
  have hqi := hq.index_le
  rw [hp.left_eq, hq.left_eq] at h
  omega

theorem Takes.reaches {a : α} (h : Takes toks m c a d) (hp : At toks c p)
    (hle : d.left ≤ c.left) (hlt : P a → d.left < c.left) : Reaches toks P m p.index p := by
  obtain ⟨q, hrun, hq⟩ := h p hp
  refine ⟨.ok a, q, hrun, nofun, hp.index_le_index hq hle, hq.index_le, fun b hb hP => ?_⟩
  cases hb
  exact hp.index_lt_index hq (hlt hP)

theorem Follows.reaches {o : Outcome α c} (h : Follows toks m c o) (hp : At toks c p) :
    Reaches toks P m p.index p := by
  obtain ⟨q, hrun, hq⟩ := h p hp
  cases o with
  | ok a d k =>
    exact ⟨.ok a, q, hrun, nofun, hp.index_le_index hq (Nat.le_of_lt k), hq.index_le,
      fun _ _ _ => hp.index_lt_index hq k⟩
  | error fault d k =>
    exact ⟨.error (.refused fault), q, hrun, nofun, hp.index_le_index hq k, hq.index_le, nofun⟩

/-- What follows a reader of cursors moves as that does. -/
theorem Moves.of_follows {o : (c : Cursor) → Outcome α c}
    (h : ∀ c, Follows toks m c (o c)) : Moves toks P m :=
  fun _ hp => (h _).reaches (at_drop hp)

theorem ReadsAs.of_follows {o : (c : Cursor) → Outcome α c}
    (h : ∀ c, Follows toks m c (o c)) : ReadsAs toks m o :=
  ⟨h, .of_follows h⟩

/-! ## Rounds -/

theorem run_tok (p : Position) :
    toks.tok.run p = some (.ok (toks.list[p.index]?.map (·.token)), p) := rfl

theorem run_isAt (t : Token) (p : Position) : (toks.isAt t).run p =
    some (.ok (decide (toks.list[p.index]?.map (·.token) = some t)), p) := rfl

theorem unexpected_moves (what : String) : Moves toks P (toks.unexpected what) :=
  .of_follows fun _ => unexpected_follows what

theorem expect_moves (t : Token) (what : String) : Advances toks (toks.expect t what) :=
  .of_follows fun _ => expect_follows t what

/-- Where there is a token, reading it moves on. -/
theorem bump_reaches (h : p.index < toks.list.length) {P : Span → Prop} :
    Reaches toks P toks.bump p.index p := by
  have hp := at_drop (Nat.le_of_lt h)
  have hlt : 0 < (Cursor.mk (toks.list.drop p.index) p.last toks.size).left := by
    rw [hp.left_eq]
    omega
  exact takes_bump.reaches hp (Cursor.advance_le _) fun _ => by rw [Cursor.left_advance]; omega

theorem eat_moves (t : Token) : Moves toks (fun span => span.isSome) (toks.eat t) := by
  intro p hp
  have hat := at_drop hp
  by_cases h : (Cursor.mk (toks.list.drop p.index) p.last toks.size).token? = some t
  · exact (takes_eat h).reaches hat (Cursor.advance_le _) fun _ => Cursor.advance_lt h
  · exact (takes_eat_none h).reaches hat (Nat.le_refl _) nofun

theorem lt_length_of_getElem? {l : Lexeme} (h : toks.list[i]? = some l) :
    i < toks.list.length :=
  (List.getElem?_eq_some_iff.1 h).1

theorem memberRound_moves {close : Token} {atEnd behind : String} (h : Advances toks m) :
    Moves toks Round.goesOn (toks.memberRound close atEnd behind m) := by
  intro p hp
  refine .stays (run_tok p) ?_
  cases hl : toks.list[p.index]? with
  | none => exact unexpected_moves _ p hp
  | some l =>
    dsimp only [Option.map_some]
    split
    · exact .pure (Nat.le_refl _) hp nofun
    split
    · refine (bump_reaches (P := fun _ => True) (lt_length_of_getElem? hl)).bind ?_
      exact fun _ q hle hq hlt => .pure hle hq fun _ => hlt trivial
    · refine (h p hp).bind fun a q hle hq hlt => .stays (run_isAt close q) ?_
      split
      · exact .pure hle hq fun _ => hlt trivial
      · have hexpect : Reaches toks (fun _ => True) (toks.expect (.punct .semi) behind) p.index q :=
          (expect_moves _ _).reaches hle hq fun _ _ => .inr trivial
        exact hexpect.bind fun _ s hle hs hlt => .pure hle hs fun _ => hlt trivial

theorem listRound_moves {close : Token} (h : Advances toks m) :
    Moves toks Round.goesOn (toks.listRound close m) := by
  intro p hp
  refine .stays (run_isAt close p) ?_
  split
  · exact .pure (Nat.le_refl _) hp nofun
  · refine (h p hp).bind fun a q hle hq hlt => ?_
    have hcomma : Reaches toks (fun _ => True) (toks.eat (.punct .comma)) p.index q :=
      (eat_moves _).reaches hle hq fun _ _ => .inl (hlt trivial)
    refine hcomma.bind fun comma s hle hs hlt => ?_
    cases comma with
    | some span => exact .pure hle hs fun _ => hlt trivial
    | none => exact .pure hle hs nofun

theorem specRound_moves {spec : Option Nat → Read α}
    {spec' : Option Nat → (c : Cursor) → Outcome α c}
    (h : ∀ doc c, Follows toks (spec doc) c (spec' doc c)) :
    Moves toks Round.goesOn (toks.specRound layout spec) :=
  memberRound_moves (.of_follows fun c => .takes takes_start (h (layout.docFor? c.start) c))

theorem recoverRound_moves : Moves toks Round.goesOn toks.recoverRound := by
  intro p hp
  refine .stays (run_tok p) ?_
  cases hl : toks.list[p.index]? with
  | none => exact .pure (Nat.le_refl _) hp nofun
  | some l =>
    refine (bump_reaches (P := fun _ => True) (lt_length_of_getElem? hl)).bind ?_
    intro _ q hle hq hlt
    refine .stays (run_tok q) ?_
    split
    · exact .pure hle hq nofun
    · exact .pure hle hq fun _ => hlt trivial

theorem fileRound_moves : Moves toks Round.goesOn (toks.fileRound layout) := by
  intro p hp
  have hat := at_drop hp
  generalize Cursor.mk (toks.list.drop p.index) p.last toks.size = c at hat
  match h : c.token? with
  | none =>
    have hround : Takes toks (toks.fileRound layout) c (.done none) c :=
      (takes_tok_eq h).bind (.pure _ _)
    exact hround.reaches hat (Nat.le_refl _) nofun
  | some t =>
    by_cases hsemi : t = .punct .semi
    · subst hsemi
      have hround : Takes toks (toks.fileRound layout) c (.again none) c.advance :=
        (takes_tok_eq h).bind (takes_bump.bind (.pure _ _))
      exact hround.reaches hat (Cursor.advance_le c) fun _ => Cursor.advance_lt h
    · have hround := takes_fileRound toks layout h hsemi
      cases ho : c.decl layout with
      | ok a next k =>
        rw [ho] at hround
        exact hround.reaches hat (Nat.le_of_lt k) fun _ => k
      | error fault stop k =>
        rw [ho] at hround
        have hlt := Cursor.recover_lt h k
        exact hround.reaches hat (Nat.le_of_lt hlt) fun _ => hlt

/-! ## Loops -/

theorem LoopsBy.of_next {loop : Read (List α)} {round : Read (Round α)}
    (heq : loop = round >>= loop.next) (h : Moves toks Round.goesOn round) :
    LoopsBy toks loop round :=
  ⟨heq.trans (bind_congr fun r => by cases r <;> rfl), h⟩

theorem LoopsBy.of_rounds {round : Read (Round α)} (h : Moves toks Round.goesOn round) :
    LoopsBy toks round.rounds round :=
  .of_next (Read.rounds_eq round) h

theorem structRounds_loops : LoopsBy toks toks.structRounds
    (toks.memberRound (.punct .rbrace) "'\x7d'" "';' or '\x7d'" toks.field) :=
  .of_next structRounds_eq (memberRound_moves (.of_follows field_follows))

theorem interfaceRounds_loops : LoopsBy toks toks.interfaceRounds
    (toks.memberRound (.punct .rbrace) "'\x7d'" "';' or '\x7d'" toks.interfaceElem) :=
  .of_next interfaceRounds_eq (memberRound_moves (.of_follows interfaceElem_follows))

theorem paramRounds_loops :
    LoopsBy toks toks.paramRounds (toks.listRound (.punct .rparen) toks.param) :=
  .of_next paramRounds_eq (listRound_moves (.of_follows param_follows))

theorem typeArgRounds_loops :
    LoopsBy toks toks.typeArgRounds (toks.listRound (.punct .rbrack) toks.type) :=
  .of_next typeArgRounds_eq (listRound_moves (.of_follows type_follows))

/-! ## Recovery and files -/

/-- Where there is a token, recovery moves on. -/
theorem recover_progresses (i : Fin toks.list.length) (last : Nat) : ∃ q,
    toks.recover.run ⟨i, last⟩ = some (.ok (), q) ∧ i < q.index ∧
      q.index ≤ toks.list.length := by
  have hat := at_drop (p := ⟨i, last⟩) (Nat.le_of_lt i.isLt)
  obtain ⟨q, hrun, hq⟩ := takes_recover _ hat
  have hi : toks.list[i.val]? = some toks.list[i] := List.getElem?_eq_getElem i.isLt
  have htok : (Cursor.mk (toks.list.drop i) last toks.size).token? =
      some toks.list[i].token := by
    rw [Cursor.token?, List.head?_drop, hi]
    rfl
  have hlt := Cursor.recover_lt htok (Nat.le_refl _)
  exact ⟨q, hrun, hat.index_lt_index hq hlt, hq.index_le⟩

theorem recover_moves : Moves toks (fun _ => False) toks.recover :=
  fun _ hp => takes_recover.reaches (at_drop hp) (Cursor.skip_le _ _) nofun

/-- A file is read to its end. -/
theorem file_progresses (toks : Tokens) (layout : Layout) : ∃ last,
    (toks.file layout).run ⟨0, 0⟩ =
      some (.ok (SourceFile.read layout ⟨toks.list, 0, toks.size⟩), ⟨toks.list.length, last⟩) := by
  have hat : At toks ⟨toks.list, 0, toks.size⟩ ⟨0, 0⟩ := ⟨Nat.zero_le _, rfl, rfl, rfl⟩
  obtain ⟨e, htakes, hend⟩ := takes_file toks layout ⟨toks.list, 0, toks.size⟩
  obtain ⟨q, hrun, hq⟩ := htakes _ hat
  have hrest : e.rest = [] := by
    rw [Cursor.token?, Option.map_eq_none_iff, List.head?_eq_none_iff] at hend
    exact hend
  have hindex : q.index = toks.list.length := by
    have hdrop := hq.rest
    rw [hrest] at hdrop
    exact Nat.le_antisymm hq.index_le (List.drop_eq_nil_iff.1 hdrop.symm)
  exact ⟨q.last, hindex ▸ hrun⟩

/-! ## Main statement -/

/-- **Reading always moves on**: with a value each reader is further on, and a loop goes on
    only further on, as does recovery where there is a token.  The file is read to its end,
    and every token that is taken at an index is there. -/
theorem reading_progresses (toks : Tokens) (layout : Layout) :
    (ReadsAs toks toks.type Cursor.type ∧ ReadsAs toks toks.field Cursor.field ∧
      ReadsAs toks toks.param Cursor.param ∧ ReadsAs toks toks.union Cursor.union ∧
      (∀ doc, ReadsAs toks (toks.importSpec doc) (Cursor.importSpec doc)) ∧
      (∀ doc, ReadsAs toks (toks.typeSpec layout doc) (Cursor.typeSpec layout doc)) ∧
      ReadsAs toks (toks.decl layout) (Cursor.decl layout)) ∧
    (LoopsBy toks ((toks.fileRound layout).rounds) (toks.fileRound layout) ∧
      LoopsBy toks (toks.specRound layout toks.importSpec).rounds
        (toks.specRound layout toks.importSpec) ∧
      LoopsBy toks (toks.specRound layout (toks.typeSpec layout)).rounds
        (toks.specRound layout (toks.typeSpec layout)) ∧
      LoopsBy toks toks.structRounds
        (toks.memberRound (.punct .rbrace) "'\x7d'" "';' or '\x7d'" toks.field) ∧
      LoopsBy toks toks.interfaceRounds
        (toks.memberRound (.punct .rbrace) "'\x7d'" "';' or '\x7d'" toks.interfaceElem) ∧
      LoopsBy toks toks.paramRounds (toks.listRound (.punct .rparen) toks.param) ∧
      LoopsBy toks toks.typeArgRounds (toks.listRound (.punct .rbrack) toks.type) ∧
      LoopsBy toks toks.typeParamRound.rounds toks.typeParamRound ∧
      LoopsBy toks toks.recoverRound.rounds toks.recoverRound) ∧
    (Moves toks (fun _ => False) toks.recover ∧
      ∀ (i : Fin toks.list.length) (last : Nat), ∃ q,
        toks.recover.run ⟨i, last⟩ = some (.ok (), q) ∧ i < q.index ∧
          q.index ≤ toks.list.length) ∧
    ∃ last, (toks.file layout).run ⟨0, 0⟩ =
      some (.ok (SourceFile.read layout ⟨toks.list, 0, toks.size⟩),
        ⟨toks.list.length, last⟩) := by
  refine ⟨?readers, ?loops, ⟨recover_moves, recover_progresses⟩, file_progresses toks layout⟩
  case readers =>
    exact ⟨.of_follows type_follows, .of_follows field_follows, .of_follows param_follows,
      .of_follows union_follows, fun doc => .of_follows (importSpec_follows doc),
      fun doc => .of_follows (typeSpec_follows doc), .of_follows decl_follows⟩
  case loops =>
    exact ⟨.of_rounds fileRound_moves, .of_rounds (specRound_moves importSpec_follows),
      .of_rounds (specRound_moves typeSpec_follows), structRounds_loops, interfaceRounds_loops,
      paramRounds_loops, typeArgRounds_loops,
      .of_rounds (listRound_moves (.of_follows fun _ => typeParam_follows)),
      .of_rounds recoverRound_moves⟩

end GoDecls.Indexed

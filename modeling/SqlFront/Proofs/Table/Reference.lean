import SqlFront.Proofs.Table.Factor

/-!
# Reading table references

A clause of table references is a list of tables with commas and joins between them. The tables are
read in their order, up to the first join condition with an operand that is not read to its end.
-/

set_option autoImplicit false

namespace SqlFront

open SqlFront.Parser SqlFront.Clause

variable {d : Dialect} {rule : ShardingRule} {w v x : Workspace Findings} {name t : Token}
  {ts us more : List Token}

/-! ## References -/

structure Reference where
  name : Token
  joined : Bool
  tests : List JoinTest

namespace Reference

def title (r : Reference) : String := unquoted r.name.literals

def IsRead (r : Reference) : Prop := ∀ j ∈ r.tests, j.IsRead

def IsRecorded (rule : ShardingRule) (r : Reference) : Prop :=
  (!r.joined || rule.containsTable r.title || rule.hasDefault) = true

end Reference

variable {r : Reference} {rs qs : List Reference}

def Noticed (rule : ShardingRule) (rs : List Reference) (r : Reference) : Prop :=
  Upto Reference.IsRead rs r ∧ r.IsRecorded rule

theorem noticed_append (hread : ∀ r ∈ rs, r.IsRead) :
    Noticed rule (rs ++ qs) r ↔ Noticed rule rs r ∨ Noticed rule qs r := by
  simp only [Noticed, upto_append, and_iff_right hread, or_and_right]

theorem noticed_append_of_not (hnot : ¬∀ r ∈ rs, r.IsRead) :
    Noticed rule (rs ++ qs) r ↔ Noticed rule rs r := by
  simp only [Noticed, upto_append, hnot, false_and, or_false]

def HaltsIn (rs : List Reference) : Prop := ∃ r, Upto Reference.IsRead rs r ∧ Halts r.tests

structure ReferencesRead (rule : ShardingRule) (rs : List Reference) (us more : List Token)
    (w v : Workspace Findings) : Prop where
  dialect : v.cursor.dialect = w.cursor.dialect
  names : ∀ n, v.draft.tables.containsName n = true ↔ w.draft.tables.containsName n = true ∨
    ∃ r, Noticed rule rs r ∧ sameName r.title n = true
  place : ((∀ r ∈ rs, r.IsRead) ∧ v.cursor.Passes us more) ∨
    ((¬∀ r ∈ rs, r.IsRead) ∧ StuckInJoin w.cursor.dialect v)

theorem ReferencesRead.nil (hw : w.cursor.Passes us more) : ReferencesRead rule [] us more w w := by
  refine ⟨rfl, fun n => ?_, Or.inl ⟨by simp, hw⟩⟩
  have hnone : ¬∃ r, Noticed rule [] r ∧ sameName r.title n = true := by
    rintro ⟨r, ⟨h, -⟩, -⟩
    cases h
  simp [hnone]

/-- What is behind a list that is read to its end is read as well. -/
theorem ReferencesRead.append {vs : List Token} (h : ReferencesRead rule rs vs more w v)
    (hread : ∀ r ∈ rs, r.IsRead) (h' : ReferencesRead rule qs us more v x) :
    ReferencesRead rule (rs ++ qs) us more w x := by
  refine ⟨h'.dialect.trans h.dialect, fun n => ?_, ?_⟩
  · rw [h'.names, h.names, or_assoc, ← exists_or]
    refine or_congr_right (exists_congr fun r => ?_)
    rw [noticed_append hread, or_and_right]
  · have hplace := h'.place
    rw [h.dialect] at hplace
    simpa only [List.forall_mem_append, and_iff_right hread] using hplace

theorem ReferencesRead.stops {vs : List Token} (h : ReferencesRead rule rs vs more w v)
    (hnot : ¬∀ r ∈ rs, r.IsRead) : ReferencesRead rule (rs ++ qs) us more w v := by
  have hstuck : StuckInJoin w.cursor.dialect v := by
    rcases h.place with ⟨hread, -⟩ | ⟨-, hstuck⟩
    · exact (hnot hread).elim
    · exact hstuck
  refine ⟨h.dialect, fun n => ?_, Or.inr ⟨fun hall => hnot fun r hr => ?_, hstuck⟩⟩
  · rw [h.names]
    refine or_congr_right (exists_congr fun r => ?_)
    rw [noticed_append_of_not hnot]
  · exact hall r (List.mem_append_left _ hr)

theorem haltsIn_append (hread : ∀ r ∈ rs, r.IsRead) (h : HaltsIn qs) : HaltsIn (rs ++ qs) := by
  obtain ⟨r, hr, hj⟩ := h
  exact ⟨r, upto_append.2 (Or.inr ⟨hread, hr⟩), hj⟩

theorem HaltsIn.left (h : HaltsIn rs) : HaltsIn (rs ++ qs) := by
  obtain ⟨r, hr, hj⟩ := h
  exact ⟨r, upto_append.2 (Or.inl hr), hj⟩

/-- A table that has been read, with the condition behind it. -/
theorem ReferencesRead.single (hdialect : v.cursor.dialect = w.cursor.dialect)
    (hnames : ∀ n, v.draft.tables.containsName n = true ↔ w.draft.tables.containsName n = true ∨
      ((!r.joined || rule.containsTable r.title || rule.hasDefault) = true ∧
        sameName r.title n = true))
    (hplace : (r.IsRead ∧ v.cursor.Passes us more) ∨
      (¬r.IsRead ∧ StuckInJoin w.cursor.dialect v)) :
    ReferencesRead rule [r] us more w v := by
  refine ⟨hdialect, fun n => ?_, by simpa using hplace⟩
  rw [hnames]
  refine or_congr_right ?_
  have hupto : ∀ q, Upto Reference.IsRead [r] q ↔ q = r := by
    intro q
    constructor
    · intro h
      simpa using h.mem
    · rintro rfl
      exact .first
  simp only [Noticed, hupto, and_assoc, exists_eq_left]
  rfl

/-! ## What comes behind a table -/

structure EndsReference (ts : List Token) : Prop where
  operand : endsOperand ts = true
  front : frontType ts ∉ factorStarts ++ keywordTypes [.ON, .USING, .AND]

theorem endsReference_of_type {y : TokenType} (ht : t.type = y)
    (hy : y ∉ factorStarts ++ keywordTypes [.ON, .USING, .AND] ++ operators ++
      [.symbol .leftParen, .literal .int, .literal .float]) : EndsReference (t :: ts) := by
  simp only [List.mem_append, List.mem_cons, List.not_mem_nil, or_false, not_or] at hy
  constructor
  · exact endsOperand_of_type (x := y) ht hy.1.2 hy.2.1 hy.2.2.1 hy.2.2.2
  · rw [frontType_cons, ht, List.mem_append, not_or]
    exact hy.1.1

theorem endsReference_of_join (ht : t.type ∈ joinTypes d) : EndsReference (t :: ts) := by
  have hplain : ∀ y ∈ joinTypes d, y ∉ factorStarts ++ keywordTypes [.ON, .USING, .AND] ++
      operators ++ [.symbol .leftParen, .literal .int, .literal .float] := by
    cases d <;> decide
  exact endsReference_of_type rfl (hplain _ ht)

theorem EndsReference.factor (h : EndsReference ts) : frontType ts ∉ factorStarts :=
  fun hf => h.front (List.mem_append_left _ hf)

theorem EndsReference.stop (h : EndsReference ts) :
    frontType ts ∉ keywordTypes [.ON, .USING, .AND] :=
  fun hf => h.front (List.mem_append_right _ hf)

theorem SpellsCondition.factor {js : List JoinTest} (hs : SpellsCondition d js ts)
    (h : EndsReference us) : frontType (ts ++ us) ∉ factorStarts := by
  cases hs with
  | none => exact h.factor
  | columns hu =>
    rw [List.cons_append, frontType_cons, hu]
    decide
  | on ho =>
    rw [List.cons_append, frontType_cons, ho]
    decide

/-! ## Joins -/

inductive SpellsJoins (d : Dialect) : List Reference → List Token → Prop
  | nil : SpellsJoins d [] []
  | cons {name : Token} {js : List JoinTest} {rs : List Reference} {ws fs cs ts : List Token} :
      ws ≠ [] → (∀ t ∈ ws, t.type ∈ joinTypes d) → name.type ∉ joinTypes d →
      SpellsFactor d name fs → SpellsCondition d js cs → SpellsJoins d rs ts →
      SpellsJoins d (⟨name, true, js⟩ :: rs) (ws ++ (fs ++ (cs ++ ts)))

def joinedTable (rule : ShardingRule) : Parser Findings Unit := do
  if ← isAt (.symbol .leftParen) then failAt fun c => .unsupported c.current.start .joinedSubQuery
  tableFactor rule false
  joinCondition

theorem joins_eq (rule : ShardingRule) : joins rule = whileM joinType (joinedTable rule) := rfl

theorem SpellsFactor.front (h : SpellsFactor d name ts) :
    ∃ ts', ts = name :: ts' ∧ name.isName = true := by
  obtain ⟨hname, -, -, -⟩ := h
  exact ⟨_, rfl, hname⟩

theorem SpellsJoins.ends (h : SpellsJoins d rs ts) (hus : EndsReference us) :
    EndsReference (ts ++ us) := by
  cases h with
  | nil => exact hus
  | @cons _ _ _ ws _ _ _ hws hwords =>
    obtain ⟨t, ws, rfl⟩ := List.exists_cons_of_ne_nil hws
    exact endsReference_of_join (hwords t (by simp))

theorem achieves_joinType {ws : List Token} (hws : ws ≠ [])
    (hwords : ∀ t ∈ ws, t.type ∈ joinTypes w.cursor.dialect)
    (hus : frontType (us ++ more) ∉ joinTypes w.cursor.dialect)
    (hw : w.cursor.Passes (ws ++ us) more) :
    Achieves w joinType fun b v => b = true ∧ v.cursor.Passes us more ∧ v.draft = w.draft ∧
      v.cursor.dialect = w.cursor.dialect := by
  have hrun : Achieves w joinType fun b v =>
      b = true ∧ v.cursor.Passes us more ∧ v.draft = w.draft := by
    unfold joinType
    apply settles_grammar.2
    apply settles_isAtAny.2
    have hat : w.cursor.isAtAny (joinTypes w.cursor.dialect) = true := by
      obtain ⟨t, ws, rfl⟩ := List.exists_cons_of_ne_nil hws
      rw [Cursor.isAtAny_iff, hw.current]
      exact hwords t (by simp)
    unfold joinTypes at hat
    rw [hat, if_pos rfl]
    apply (achieves_skipAll hwords hus hw).bind
    rintro _ v ⟨hv, hd⟩
    exact Settles.pure ⟨rfl, hv, hd⟩
  apply hrun.withRun.mono
  rintro b v ⟨⟨rfl, hv, hd⟩, h⟩
  have hp := follows_joinType (R := Progress (fun _ => True) True True) h
  exact ⟨rfl, hv, hd, hp.reaches.dialect⟩

theorem achieves_noJoin (h : w.cursor.current.type ∉ joinTypes w.cursor.dialect) :
    Achieves w joinType fun b v => b = false ∧ v = w := by
  have hat : w.cursor.isAtAny (joinTypes w.cursor.dialect) = false := by
    rwa [← Bool.not_eq_true, Cursor.isAtAny_iff]
  unfold joinTypes at hat
  unfold joinType
  apply settles_grammar.2
  apply settles_isAtAny.2
  rw [hat, if_neg (by simp)]
  exact Settles.pure ⟨rfl, rfl⟩

theorem settles_joinedTable {js : List JoinTest} {fs cs : List Token}
    (hfs : SpellsFactor w.cursor.dialect name fs) (hcs : SpellsCondition w.cursor.dialect js cs)
    (hus : EndsReference (us ++ more)) (hw : w.cursor.Passes (fs ++ (cs ++ us)) more) :
    Settles w (joinedTable rule) (fun _ v => ReferencesRead rule [⟨name, true, js⟩] us more w v)
      fun _ => HaltsIn [⟨name, true, js⟩] := by
  have hparen : w.cursor.isAt (.symbol .leftParen) = false := by
    obtain ⟨fs, rfl, hname⟩ := hfs.front
    rw [hw.isAt, beq_eq_false_iff_ne]
    intro hleft
    have hleft' : name.type = .symbol .leftParen := hleft
    simp [Token.isName, hleft'] at hname
  unfold joinedTable
  apply settles_isAt.2
  rw [hparen, if_neg (by simp)]
  have hfollow : frontType (cs ++ us ++ more) ∉ factorStarts := by
    rw [List.append_assoc]
    exact hcs.factor hus
  apply (achieves_tableFactor hfs hfollow hw).bind
  rintro _ v ⟨hv, hdialect, hnames⟩
  apply Settles.faults ((settles_joinCondition hcs hus.operand hus.stop hv).withRun.mono ?_)
  · exact fun _ h => ⟨_, .first, h⟩
  rintro _ x ⟨⟨htables, hplace⟩, h⟩
  have hp := follows_joinCondition (R := Progress (fun _ => True) True True) h
  refine .single (hp.reaches.dialect.trans hdialect) (fun n => ?_) hplace
  rw [htables]
  exact hnames n

theorem settles_joins (hs : SpellsJoins w.cursor.dialect rs ts) (hus : EndsReference (us ++ more))
    (hjoin : frontType (us ++ more) ∉ joinTypes w.cursor.dialect)
    (hw : w.cursor.Passes (ts ++ us) more) :
    Settles w (joins rule) (fun _ v => ReferencesRead rule rs us more w v)
      fun _ => HaltsIn rs := by
  have hturns : ∀ k, ts.length < k →
      Settles w (repeatFor (whileTurn joinType (joinedTable rule)) k ())
        (fun _ v => ReferencesRead rule rs us more w v) fun _ => HaltsIn rs := by
    intro k hk
    generalize hd : w.cursor.dialect = d at hs hjoin
    -- By induction on the joins. Behind a condition that is not read to its end no join follows.
    induction hs generalizing w k with
    | nil =>
      obtain ⟨k, rfl⟩ := Nat.exists_eq_add_of_lt hk
      exact settles_lastTurn (achieves_noJoin (by rw [hw.type, hd]; exact hjoin)) (.nil hw)
    | @cons name js rs ws fs cs ts hws hwords hname hfs hcs hrs ih =>
      subst hd
      obtain ⟨k, rfl⟩ := Nat.exists_eq_add_of_lt hk
      have hends : EndsReference (ts ++ us ++ more) := by
        rw [List.append_assoc]
        exact hrs.ends hus
      have hp : w.cursor.Passes (ws ++ (fs ++ (cs ++ (ts ++ us)))) more := by simpa using hw
      have hfront : frontType (fs ++ (cs ++ (ts ++ us)) ++ more) ∉ joinTypes w.cursor.dialect := by
        obtain ⟨fs, rfl, -⟩ := hfs.front
        exact hname
      apply settles_turn (achieves_joinType hws hwords hfront hp)
      rintro v ⟨hv, hvd, hdialect⟩
      have hstart : ∀ {y : Workspace Findings} {qs : List Reference} {vs : List Token},
          ReferencesRead rule qs vs more v y → ReferencesRead rule qs vs more w y := by
        intro y qs vs h
        refine ⟨h.dialect.trans hdialect, ?_, ?_⟩
        · rw [← hvd]
          exact h.names
        · rw [← hdialect]
          exact h.place
      have htable : Settles v (joinedTable rule)
          (fun _ x => ReferencesRead rule [⟨name, true, js⟩] (ts ++ us) more v x)
          fun _ => HaltsIn [⟨name, true, js⟩] :=
        settles_joinedTable (hdialect ▸ hfs) (hdialect ▸ hcs) hends hv
      have hlen : 0 < ws.length := List.length_pos_iff.2 hws
      simp only [List.length_append]
      apply Settles.faults (htable.mono ?_)
      · exact fun _ h => h.left
      rintro _ x hx
      rcases hx.place with ⟨hread, hxp⟩ | ⟨hnot, hstuck⟩
      · have hxd : x.cursor.dialect = w.cursor.dialect := hx.dialect.trans hdialect
        apply Settles.faults ((ih hxp _ (by omega) hxd).mono ?_)
        · exact fun _ h => haltsIn_append hread h
        · exact fun _ y hy => (hstart hx).append hread hy
      · have hturn : Achieves x joinType fun b y => b = false ∧ y = x := by
          apply achieves_noJoin
          intro hat
          apply hstuck
          rw [← hx.dialect]
          simp [joinStops, hat]
        obtain ⟨m, hm⟩ := Nat.exists_eq_succ_of_ne_zero
          (n := ws.length + (fs.length + (cs.length + ts.length)) + k) (by omega)
        rw [hm]
        exact settles_lastTurn hturn ((hstart hx).stops hnot)
  have hmoves := hw.length_lt_moves
  rw [List.length_append] at hmoves
  rw [joins_eq]
  exact hturns _ (by omega)

/-! ## The clause -/

inductive SpellsJoined (d : Dialect) : List Reference → List Token → Prop
  | intro {name : Token} {rs : List Reference} {fs ts : List Token} : SpellsFactor d name fs →
      SpellsJoins d rs ts → SpellsJoined d (⟨name, false, []⟩ :: rs) (fs ++ ts)

inductive SpellsReferences (d : Dialect) : List Reference → List Token → Prop
  | single {rs : List Reference} {ts : List Token} : SpellsJoined d rs ts →
      SpellsReferences d rs ts
  | comma {rs qs : List Reference} {s : Token} {ts us : List Token} : SpellsJoined d rs ts →
      s.type = .symbol .comma → SpellsReferences d qs us →
      SpellsReferences d (rs ++ qs) (ts ++ s :: us)

theorem SpellsJoined.length_pos (h : SpellsJoined d rs ts) : 0 < ts.length := by
  obtain @⟨name, rs, fs, ts, hfs, -⟩ := h
  obtain ⟨fs, rfl, -⟩ := hfs.front
  simp

theorem StuckInJoin.not_comma (h : StuckInJoin d v) :
    v.cursor.current.type ∉ [TokenType.symbol .comma] := by
  intro hc
  apply h
  simp [List.mem_singleton.1 hc]

def joinedTables (rule : ShardingRule) : Parser Findings Unit := do
  tableFactor rule true
  joins rule

theorem settles_joinedTables (hs : SpellsJoined w.cursor.dialect rs ts)
    (hus : EndsReference (us ++ more))
    (hjoin : frontType (us ++ more) ∉ joinTypes w.cursor.dialect)
    (hw : w.cursor.Passes (ts ++ us) more) :
    Settles w (joinedTables rule) (fun _ v => ReferencesRead rule rs us more w v)
      fun _ => HaltsIn rs := by
  obtain @⟨name, rs, fs, ts, hfs, hrs⟩ := hs
  rw [List.append_assoc] at hw
  have hfollow : frontType (ts ++ us ++ more) ∉ factorStarts := by
    rw [List.append_assoc]
    exact (hrs.ends hus).factor
  unfold joinedTables
  apply (achieves_tableFactor hfs hfollow hw).bind
  rintro _ v ⟨hv, hdialect, hnames⟩
  have hfirst : ReferencesRead rule [⟨name, false, []⟩] (ts ++ us) more w v :=
    .single hdialect hnames (Or.inl ⟨by simp [Reference.IsRead], hv⟩)
  have hread : ∀ r ∈ [(⟨name, false, []⟩ : Reference)], r.IsRead := by simp [Reference.IsRead]
  apply Settles.faults ((settles_joins (hdialect ▸ hrs) hus (hdialect ▸ hjoin) hv).mono ?_)
  · exact fun _ h => haltsIn_append hread h
  · exact fun _ x hx => hfirst.append hread hx

theorem settles_references (hs : SpellsReferences w.cursor.dialect rs ts)
    (hus : EndsReference (us ++ more))
    (hstop : frontType (us ++ more) ∉ .symbol .comma :: joinTypes w.cursor.dialect)
    (hw : w.cursor.Passes (ts ++ us) more) :
    Settles w (commaSeparated (joinedTables rule))
      (fun _ v => ReferencesRead rule rs us more w v) fun _ => HaltsIn rs := by
  have hlist : ∀ k, ts.length ≤ k → ∀ bs : List Unit,
      Settles w (repeatFor (listRound (.symbol .comma) (joinedTables rule)) k bs)
        (fun _ v => ReferencesRead rule rs us more w v) fun _ => HaltsIn rs := by
    intro k hk bs
    generalize hd : w.cursor.dialect = d at hs hstop
    rw [List.mem_cons, not_or] at hstop
    -- By induction on the parts between the commas.
    induction hs generalizing w k bs with
    | @single rs ts hrs =>
      subst hd
      obtain ⟨k, rfl⟩ := Nat.exists_eq_add_of_lt (Nat.lt_of_lt_of_le hrs.length_pos hk)
      rw [Nat.zero_add, repeatFor_listRound]
      apply (settles_joinedTables hrs hus hstop.2 hw).bind
      intro _ v hv
      have hat : v.cursor.current.type ∉ [TokenType.symbol .comma] := by
        rcases hv.place with ⟨-, hp⟩ | ⟨-, hstuck⟩
        · rw [hp.type]
          simpa using hstop.1
        · exact hstuck.not_comma
      apply settles_notAt hat
      exact Settles.pure hv
    | @comma rs qs s ts ts' hrs hsep hqs ih =>
      subst hd
      rw [List.length_append, List.length_cons] at hk
      obtain ⟨k, rfl⟩ : ∃ m, k = m + 1 := Nat.exists_eq_succ_of_ne_zero (by omega)
      rw [repeatFor_listRound]
      rw [List.append_assoc, List.cons_append] at hw
      have hends : EndsReference (s :: (ts' ++ us) ++ more) :=
        endsReference_of_type (y := .symbol .comma) hsep (by decide)
      have hjoin : frontType (s :: (ts' ++ us) ++ more) ∉ joinTypes w.cursor.dialect := by
        rw [List.cons_append, frontType_cons, hsep]
        simp [joinTypes, keywordTypes]
      apply Settles.bind ((settles_joinedTables hrs hends hjoin hw).faults fun _ h => h.left)
      intro _ v hv
      rcases hv.place with ⟨hread, hp⟩ | ⟨hnot, hstuck⟩
      · apply settles_skipIf hp (by simp [hsep])
        intro v₁ h₁
        rw [if_pos rfl]
        have hd₁ : v₁.cursor.dialect = w.cursor.dialect := by
          rw [Cursor.advance_dialect h₁.advance, hv.dialect]
        have hbehind : ReferencesRead rule rs (ts' ++ us) more w v₁ := by
          refine ⟨hd₁, fun n => ?_, Or.inl ⟨hread, h₁.passes⟩⟩
          rw [h₁.draft]
          exact hv.names n
        apply Settles.faults ((ih h₁.passes k (by omega) (bs ++ [()]) hd₁).mono ?_)
        · exact fun _ h => haltsIn_append hread h
        · exact fun _ x hx => hbehind.append hread hx
      · apply settles_notAt hstuck.not_comma
        exact Settles.pure (hv.stops hnot)
  have hmoves := hw.length_lt_moves
  rw [List.length_append] at hmoves
  exact hlist _ (by omega) []

end SqlFront

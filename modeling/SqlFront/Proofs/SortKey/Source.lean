import SqlFront.Proofs.Derived.Level

/-!
# Sort keys of a text

Every sort key of a query that has been read in a text is an expression of the text, which stands
behind `BY` or behind a comma.
-/

set_option autoImplicit false

namespace SqlFront

open SqlFront.Parser SqlFront.Clause SqlFront.Reading

variable {d : Dialect} {rule : ShardingRule} {catalog : Catalog} {sql : String} {e : Expression}
  {key : OrderItem} {w v : Workspace Query}

/-! ## Single keys -/

def AtKey (d : Dialect) (sql : String) (c' : Cursor) : Prop :=
  ∃ c, Arrived d sql c ∧ c.current.type ∈ [.keyword .BY, .symbol .comma] ∧ c.advance = .ok c'

/-- The expression has been read in the text, in the place of a sort key, and it is this key. -/
inductive KeyRead (d : Dialect) (sql : String) (e : Expression) (key : OrderItem) : Prop
  | intro {w v : Workspace Findings} {q : Query} {stop : ℕ} {direction nulls : Direction} :
      AtKey d sql w.cursor → expression w = .ok e v →
      orderItem? q stop direction nulls e = .ok (some key) → KeyRead d sql e key

theorem AtKey.arrived {c : Cursor} (h : AtKey d sql c) : Arrived d sql c := by
  obtain ⟨c', hc', -, ha⟩ := h
  exact hc'.reaches (.single ha)

theorem orderItem_ok {direction nulls : Direction} {key? : Option OrderItem}
    (h : orderItem direction nulls e w = .ok key? v) :
    v = w ∧ ∃ q stop, orderItem? q stop direction nulls e = .ok key? := by
  obtain ⟨q, _, hq, h⟩ := bind_ok.1 h
  obtain ⟨rfl, rfl⟩ := draft_ok.1 hq
  obtain ⟨c, _, hc, h⟩ := bind_ok.1 h
  obtain ⟨rfl, rfl⟩ := cursor_ok.1 hc
  cases hitem : orderItem? w.draft w.cursor.previousStop direction nulls e with
  | error fault =>
    rw [hitem] at h
    exact (throw_ok.1 h).elim
  | ok item? =>
    rw [hitem] at h
    obtain ⟨rfl, rfl⟩ := pure_ok.1 h
    exact ⟨rfl, _, _, hitem⟩

/-! ## Queries -/

structure SortsAsRead (d : Dialect) (sql : String) (q : Query) : Prop where
  underived : q.isDerived = false
  orderBy : ∀ key ∈ q.orderBy, ∃ e, KeyRead d sql e key
  groupBy : ∀ key ∈ q.groupBy, ∃ e, KeyRead d sql e key

theorem SortsAsRead.keeps {q r : Query} (h : SortsAsRead d sql q)
    (hd : r.isDerived = q.isDerived) (ho : r.orderBy = q.orderBy) (hg : r.groupBy = q.groupBy) :
    SortsAsRead d sql r :=
  ⟨hd.trans h.underived, ho ▸ h.orderBy, hg ▸ h.groupBy⟩

structure KeepsKeys (w v : Workspace Query) : Prop where
  found : Progress (fun _ => True) True True w.found v.found
  orderBy : v.draft.orderBy = w.draft.orderBy
  groupBy : v.draft.groupBy = w.draft.groupBy
  derived : v.draft.isDerived = w.draft.isDerived

instance : Course (fun _ => True) True True KeepsKeys where
  trans h₁ h₂ := ⟨h₁.found.trans h₂.found, h₂.orderBy.trans h₁.orderBy,
    h₂.groupBy.trans h₁.groupBy, h₂.derived.trans h₁.derived⟩
  lift h := ⟨h, rfl, rfl, rfl⟩

theorem KeepsKeys.of_eq {q : Query} (hf : q.findings = w.draft.findings)
    (ho : q.orderBy = w.draft.orderBy) (hg : q.groupBy = w.draft.groupBy)
    (hd : q.isDerived = w.draft.isDerived) : KeepsKeys w ⟨w.cursor, q⟩ :=
  ⟨.of_findings hf, ho, hg, hd⟩

instance : QueryCourse KeepsKeys where
  item rule := .onFindings (follows_commonItem rule)
  change hf _ hg ho _ hd := .of_eq hf ho hg hd

instance : TailCourse KeepsKeys where
  setLimit limit? w u v h := by
    obtain rfl := modifyDraft_ok.1 h
    exact .of_eq rfl rfl rfl rfl
  top := .onFindings (follows_topValue limitValue_progress)
  limits comma := .onFindings (follows_limitAndOffset limitValue_progress comma)

theorem queryHead_keepsKeys (hq : w.cursor.current.type ≠ .symbol .question) :
    FollowsAt KeepsKeys w (queryHead rule) := by
  have list : Follows KeepsKeys (selectList rule) := by
    refine Follows.bind (.discard (.commaSeparated ?_)) fun _ => follows_current.bind fun t => ?_
    · refine (follows_selectItem rule).bind fun item w u v h => ?_
      obtain rfl := modifyDraft_ok.1 h
      exact .of_eq rfl rfl rfl rfl
    · intro w u v h
      obtain rfl := modifyDraft_ok.1 h
      exact .of_eq rfl rfl rfl rfl
  refine (FollowsAt.advance hq).bind fun _ => follows_distinctClause.bind fun _ => ?_
  refine follows_grammar.bind fun g => (follows_skipAll _).bind fun _ => ?_
  exact follows_topClause.bind fun _ => list.bind fun _ => follows_refuseIf

structure Sorting (d : Dialect) (sql : String) (w : Workspace Query) : Prop where
  arrived : Arrived d sql w.cursor
  sorts : SortsAsRead d sql w.draft

theorem Sorting.keeps (h : Sorting d sql w) (hv : KeepsKeys w v) : Sorting d sql v :=
  ⟨h.arrived.reaches hv.found.reaches, h.sorts.keeps hv.derived hv.orderBy hv.groupBy⟩

/-! ## Clauses -/

theorem expectBy_atKey {u : Unit} (hw : Sorting d sql w)
    (h : expectKeyword (σ := Query) .BY w = .ok u v) : AtKey d sql v.cursor ∧ Sorting d sql v := by
  obtain ⟨hat, c, hc, rfl⟩ := expect_ok.1 h
  refine ⟨⟨w.cursor, hw.arrived, ?_, hc⟩, hw.arrived.reaches (.single hc), hw.sorts⟩
  rw [Cursor.isAt_iff.1 hat]
  simp

theorem Sorting.behindComma {c : Cursor} (hw : Sorting d sql w)
    (hat : w.cursor.isAtAny [.symbol .comma] = true) (hc : w.cursor.advance = .ok c) :
    AtKey d sql c := by
  rw [Cursor.isAtAny_singleton, Cursor.isAt_iff] at hat
  exact ⟨w.cursor, hw.arrived, by simp [hat], hc⟩

theorem groupByItem_sorting {u : Unit} (hw : AtKey d sql w.cursor) (hs : SortsAsRead d sql w.draft)
    (h : groupByItem w = .ok u v) : Sorting d sql v := by
  obtain ⟨e, w₁, he, h⟩ := bind_ok.1 h
  have h₁ : KeepsKeys w w₁ := FindingsCourse.expression he
  obtain ⟨c, f, hread, rfl⟩ := onFindings_ok.1 he
  obtain ⟨dir, w₂, hdir, h⟩ := bind_ok.1 h
  have h₂ : KeepsKeys w w₂ := Stepwise.trans h₁ (follows_direction hdir)
  obtain ⟨key?, w₃, hkey, h⟩ := bind_ok.1 h
  obtain ⟨rfl, q, stop, hitem⟩ := orderItem_ok hkey
  have hw₂ : Sorting d sql w₃ := Sorting.keeps ⟨hw.arrived, hs⟩ h₂
  cases key? with
  | none =>
    obtain ⟨-, rfl⟩ := pure_ok.1 h
    exact hw₂
  | some key =>
    obtain rfl := modifyDraft_ok.1 h
    refine ⟨hw₂.arrived, hw₂.sorts.underived, hw₂.sorts.orderBy, fun k hk => ?_⟩
    rcases List.mem_append.1 hk with hk | hk
    · exact hw₂.sorts.groupBy k hk
    · obtain rfl := List.mem_singleton.1 hk
      exact ⟨e, .intro hw hread hitem⟩

theorem groupByClause_sorting {u : Unit} (hw : Sorting d sql w) (h : groupByClause w = .ok u v) :
    Sorting d sql v := by
  obtain ⟨b, w₁, hgroup, h⟩ := bind_ok.1 h
  have hw₁ := hw.keeps (follows_skipKeyword _ hgroup)
  cases b with
  | false =>
    obtain ⟨-, rfl⟩ := pure_ok.1 h
    exact hw₁
  | true =>
    obtain ⟨_, w₂, hby, h⟩ := bind_ok.1 h
    obtain ⟨hat, hw₂⟩ := expectBy_atKey hw₁ hby
    obtain ⟨_, w₃, hlist, h⟩ := bind_ok.1 h
    obtain ⟨items, hlist⟩ := discard_ok.1 hlist
    have hw₃ : Sorting d sql w₃ := by
      refine (separated_induct
        (I := fun _ w => AtKey d sql w.cursor ∧ SortsAsRead d sql w.draft)
        (M := fun _ => Sorting d sql) ?_ ?_ ⟨hat, hw₂.sorts⟩ hlist).1
      · rintro _ _ x y ⟨hx, hs⟩ hitem
        exact groupByItem_sorting hx hs hitem
      · intro _ x c hx hcomma hc
        exact ⟨hx.behindComma hcomma hc, hx.sorts⟩
    have hrest : Follows KeepsKeys (do
        skipAll (keywordTypes (← grammar).afterGroupBy)
        let stop := (← cursor).previousStop
        modifyDraft fun q : Query => { q with groupByStop := stop }) := by
      refine follows_grammar.bind fun g => (follows_skipAll _).bind fun _ => ?_
      refine follows_cursor.bind fun c w u v h => ?_
      obtain rfl := modifyDraft_ok.1 h
      exact .of_eq rfl rfl rfl rfl
    exact hw₃.keeps (hrest h)

theorem orderByItem_read {key? : Option OrderItem} (hw : AtKey d sql w.cursor)
    (h : orderByItem w = .ok key? v) : ∀ key ∈ key?, ∃ e, KeyRead d sql e key := by
  obtain ⟨e, w₁, he, h⟩ := bind_ok.1 h
  obtain ⟨c, f, hread, rfl⟩ := onFindings_ok.1 he
  have rest : ∀ {dir : Direction} {x : Workspace Query},
      (do orderItem dir (← grammar).nullsOrder e) x = .ok key? v →
      ∀ key ∈ key?, ∃ e, KeyRead d sql e key := by
    rintro dir x h key rfl
    obtain ⟨g, _, -, h⟩ := bind_ok.1 h
    obtain ⟨-, q, stop, hitem⟩ := orderItem_ok h
    exact ⟨e, .intro hw hread hitem⟩
  obtain ⟨dir, w₂, -, h⟩ := bind_ok.1 h
  obtain ⟨b, w₃, -, h⟩ := bind_ok.1 h
  cases b with
  | false => exact rest h
  | true =>
    obtain ⟨_, w₄, -, h⟩ := bind_ok.1 h
    exact rest h

theorem orderByClause_sorting {u : Unit} (hw : Sorting d sql w) (h : orderByClause w = .ok u v) :
    Sorting d sql v := by
  have keys : ∀ {x : Workspace Query}, Sorting d sql x → (do
      expectKeyword .BY
      let items ← commaSeparated orderByItem
      modifyDraft fun q : Query => { q with orderBy := q.orderBy ++ items.filterMap id }) x = .ok u v →
      Sorting d sql v := by
    intro x hx h
    obtain ⟨_, w₂, hby, h⟩ := bind_ok.1 h
    obtain ⟨hat, hw₂⟩ := expectBy_atKey hx hby
    obtain ⟨items, w₃, hlist, h⟩ := bind_ok.1 h
    have hw₃ : Sorting d sql w₃ ∧ ∀ key ∈ items.filterMap id, ∃ e, KeyRead d sql e key := by
      refine (separated_induct (I := fun items w => (AtKey d sql w.cursor ∧
          SortsAsRead d sql w.draft) ∧ ∀ key ∈ items.filterMap id, ∃ e, KeyRead d sql e key)
        (M := fun items w => Sorting d sql w ∧
          ∀ key ∈ items.filterMap id, ∃ e, KeyRead d sql e key)
        ?_ ?_ ⟨⟨hat, hw₂.sorts⟩, by simp⟩ hlist).1
      · rintro before key? x y ⟨⟨hx, hs⟩, hbefore⟩ hitem
        refine ⟨Sorting.keeps ⟨hx.arrived, hs⟩ (follows_orderByItem hitem), fun key hkey => ?_⟩
        rw [List.filterMap_append, List.mem_append] at hkey
        rcases hkey with hkey | hkey
        · exact hbefore key hkey
        · exact orderByItem_read hx hitem key (by simpa [eq_comm] using hkey)
      · rintro _ x c ⟨hx, hitems⟩ hcomma hc
        exact ⟨⟨hx.behindComma hcomma hc, hx.sorts⟩, hitems⟩
    obtain ⟨hw₃, hitems⟩ := hw₃
    obtain rfl := modifyDraft_ok.1 h
    refine ⟨hw₃.arrived, hw₃.sorts.underived, fun key hkey => ?_, hw₃.sorts.groupBy⟩
    rcases List.mem_append.1 hkey with hkey | hkey
    · exact hw₃.sorts.orderBy key hkey
    · exact hitems key hkey
  obtain ⟨b, w₁, horder, h⟩ := bind_ok.1 h
  have hw₁ := hw.keeps (follows_skipKeyword _ horder)
  cases b with
  | false =>
    obtain ⟨-, rfl⟩ := pure_ok.1 h
    exact hw₁
  | true =>
    obtain ⟨g, _, hg, h⟩ := bind_ok.1 h
    obtain ⟨-, rfl⟩ := grammar_ok.1 hg
    split at h
    · obtain ⟨_, w₂, hsiblings, h⟩ := bind_ok.1 h
      exact keys (hw₁.keeps (follows_skipKeyword _ hsiblings)) h
    · exact keys hw₁ h

theorem queryTail_sorting {u : Unit} (hw : Sorting d sql w) (h : queryTail w = .ok u v) :
    Sorting d sql v := by
  obtain ⟨_, w₁, hgroup, h⟩ := bind_ok.1 h
  obtain ⟨_, w₂, hhaving, h⟩ := bind_ok.1 h
  obtain ⟨_, w₃, horder, h⟩ := bind_ok.1 h
  have hw₂ := (groupByClause_sorting hw hgroup).keeps (follows_havingClause hhaving)
  have hrest : Follows KeepsKeys (do limitClause; setOperationClause : Parser Query Unit) :=
    follows_limitClause.bind fun _ => follows_setOperationClause
  exact (orderByClause_sorting hw₂ horder).keeps (hrest h)

/-! ## Statements -/

theorem sortsAsRead_invariant : LevelInvariant d rule sql (SortsAsRead d sql) where
  start _ := ⟨rfl, fun _ hk => by simp at hk, fun _ hk => by simp at hk⟩
  findings hq := hq.keeps rfl rfl rfl
  head ha hw hq h := (Sorting.keeps ⟨ha, hw⟩ (queryHead_keepsKeys hq h)).sorts
  tail ha hw h := (queryTail_sorting ⟨ha, hw⟩ h).sorts

theorem SortsAsRead.absorb {q r : Query} (hq : SortsAsRead d sql q) (hr : SortsAsRead d sql r) :
    SortsAsRead d sql (q.absorb r) := by
  constructor
  · exact hr.underived
  · unfold Query.absorb
    dsimp only
    split
    · exact hq.orderBy
    · exact hr.orderBy
  · unfold Query.absorb
    dsimp only
    split
    · exact hq.groupBy
    · exact hr.groupBy

/-- An accepted SELECT derives its columns from a query whose sort keys have been read in its text. -/
theorem select_sortsAsRead {s : SelectStatement} (h : parse d rule catalog sql = .ok (.select s)) :
    ∃ q, SortsAsRead d sql q ∧ s.query =
      { q.derive catalog with findings :=
        { (q.derive catalog).findings with edits := Edit.sorted (q.derive catalog).findings.edits } } :=
  sortsAsRead_invariant.select SortsAsRead.absorb h

end SqlFront

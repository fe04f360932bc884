import SqlFront.Proofs.Progress.Select

/-!
# In front of a row limit

The row limit of a query comes behind its other clauses. Where the dialect has no `TOP`, none of
these gives a limit or an edit of one.
-/

set_option autoImplicit false

namespace SqlFront

open SqlFront.Parser SqlFront.Clause SqlFront.Reading

variable {rule : ShardingRule} {σ : Type} [HasFindings σ]

def Edit.isLimit : Edit → Bool
  | .offset _ _ => true
  | .rowCount _ _ => true
  | _ => false

def Findings.limitEdits (f : Findings) : List Edit := f.edits.filter Edit.isLimit

/-! ## Findings -/

structure KeepsLimitEdits (w v : Workspace Findings) : Prop where
  dialect : v.cursor.dialect = w.cursor.dialect
  same : v.draft.limitEdits = w.draft.limitEdits

namespace KeepsLimitEdits

theorem advance {w : Workspace Findings} {c : Cursor} (h : w.cursor.advance = .ok c) :
    KeepsLimitEdits w ⟨c, w.draft⟩ := ⟨Cursor.advance_dialect h, rfl⟩

instance : Stepwise KeepsLimitEdits where
  refl _ := ⟨rfl, rfl⟩
  trans h₁ h₂ := ⟨h₂.dialect.trans h₁.dialect, h₂.same.trans h₁.same⟩
  advance _ h := advance h

theorem modify {g : Findings → Findings} (hg : ∀ f, (g f).limitEdits = f.limitEdits) :
    Follows KeepsLimitEdits (modifyDraft g) := by
  intro w u v h
  obtain rfl := modifyDraft_ok.1 h
  exact ⟨rfl, hg w.draft⟩

theorem anyToken : Follows KeepsLimitEdits Parser.advance := by
  intro w u v h
  obtain ⟨c, hc, rfl⟩ := advance_ok.1 h
  exact advance hc

instance : Passing KeepsLimitEdits where
  placeholder _ h := ⟨Cursor.advance_dialect h, rfl⟩
  member _ h h' := ⟨(Cursor.advance_dialect h').trans (Cursor.advance_dialect h), rfl⟩

end KeepsLimitEdits

open KeepsLimitEdits

theorem limitEdits_addTableEdit {f : Findings} {start : ℕ} {literals : String} :
    (f.addEdit (.table start literals)).limitEdits = f.limitEdits := by
  simp [Findings.limitEdits, Findings.addEdit, Edit.isLimit]

instance : Expressive KeepsLimitEdits where
  owner _ _ _ _ h := ⟨h.dialect, limitEdits_addTableEdit.trans h.same⟩

/-! ## Tables -/

theorem skipIndexHints_keepsLimit : Follows KeepsLimitEdits skipIndexHints := by
  refine follows_grammar.bind fun g => .ite (.whileM (follows_skipKeywords _) ?_) (.pure _)
  refine (follows_skipKeywords _).bind fun _ => (follows_skipKeyword _).bind fun _ => .ite ?_ ?_
  · refine anyToken.bind fun _ => (follows_skipKeyword _).bind fun _ => ?_
    exact follows_skipParentheses.bind fun _ => .pure _
  · exact follows_skipParentheses.bind fun _ => .pure _

theorem tableFactor_keepsLimit {single : Bool} :
    Follows KeepsLimitEdits (tableFactor rule single) := by
  have token : Follows KeepsLimitEdits tableToken := by
    intro w t v h
    obtain ⟨-, c, hc, rfl⟩ := tableToken_ok h
    exact advance hc
  refine token.bind fun t => follows_alias?.bind fun alias? => .ite ?_ ?_
  · refine Follows.bind (KeepsLimitEdits.modify fun f => ?_) fun _ => skipIndexHints_keepsLimit
    exact limitEdits_addTableEdit (f := f)
  · exact skipIndexHints_keepsLimit

theorem joins_keepsLimit : Follows KeepsLimitEdits (joins rule) := by
  refine .whileM follows_joinType (follows_isAt.bind fun _ => .ite ?_ ?_)
  · refine Follows.bind (.failAt _) fun _ => ?_
    exact tableFactor_keepsLimit.bind fun _ => follows_joinCondition
  · exact tableFactor_keepsLimit.bind fun _ => follows_joinCondition

theorem tableReferences_keepsLimit {single : Bool} :
    Follows KeepsLimitEdits (tableReferences rule single) := by
  refine follows_current.bind fun t => Follows.bind (.discard (.commaSeparated ?_)) fun _ => ?_
  · exact tableFactor_keepsLimit.bind fun _ => joins_keepsLimit
  · exact follows_draft.bind fun _ => .ite (.throw _) (.pure _)

/-! ## Conditions -/

theorem recordCondition_keepsLimit (left : Expression) (op : ConditionOperator)
    (values : List Expression) :
    Follows KeepsLimitEdits (recordCondition rule left op values) := by
  intro w u v h
  obtain ⟨hcursor, hedits⟩ := recordCondition_keeps h
  exact ⟨congrArg Cursor.dialect hcursor, congrArg (List.filter Edit.isLimit) hedits⟩

theorem whereClause_keepsLimit : Follows KeepsLimitEdits (whereClause rule) :=
  follows_whereClause <| follows_comparison fun left =>
    follows_comparisonOf (recordCondition_keepsLimit left)

/-! ## Queries -/

structure KeepsLimit (w v : Workspace Query) : Prop where
  dialect : v.cursor.dialect = w.cursor.dialect
  kept : w.cursor.dialect.grammar.rowLimit ≠ .top →
    v.draft.limit? = w.draft.limit? ∧ v.draft.findings.limitEdits = w.draft.findings.limitEdits

namespace KeepsLimit

instance : Stepwise KeepsLimit where
  refl _ := ⟨rfl, fun _ => ⟨rfl, rfl⟩⟩
  trans h₁ h₂ := by
    refine ⟨h₂.dialect.trans h₁.dialect, fun htop => ?_⟩
    obtain ⟨hlimit, hedits⟩ := h₁.kept htop
    obtain ⟨hlimit', hedits'⟩ := h₂.kept (h₁.dialect ▸ htop)
    exact ⟨hlimit'.trans hlimit, hedits'.trans hedits⟩
  advance _ h := ⟨Cursor.advance_dialect h, fun _ => ⟨rfl, rfl⟩⟩

theorem onFindings {α : Type} {p : Parser Findings α} (hp : Follows KeepsLimitEdits p) :
    Follows KeepsLimit (Parser.onFindings p) := by
  intro w a v h
  obtain ⟨c, f, hrun, rfl⟩ := onFindings_ok.1 h
  have hkeeps := hp hrun
  exact ⟨hkeeps.dialect, fun _ => ⟨rfl, hkeeps.same⟩⟩

theorem modify {g : Query → Query} (hlimit : ∀ q, (g q).limit? = q.limit?)
    (hfindings : ∀ q, (g q).findings = q.findings) : Follows KeepsLimit (modifyDraft g) := by
  intro w u v h
  obtain rfl := modifyDraft_ok.1 h
  exact ⟨rfl, fun _ => ⟨hlimit _, by rw [hfindings]⟩⟩

instance : QueryCourse KeepsLimit where
  parentheses := onFindings follows_skipParentheses
  expression := onFindings follows_expression
  item rule := onFindings (follows_commonItem rule)
  change hf _ _ _ hl _ := ⟨rfl, fun _ => ⟨hl, congrArg Findings.limitEdits hf⟩⟩

instance : SortingCourse KeepsLimit where
  keys _ _ := ⟨rfl, fun _ => ⟨rfl, rfl⟩⟩

end KeepsLimit

theorem topClause_keepsLimit : Follows KeepsLimit topClause := by
  intro w u v h
  have hprogress : QueryProgress (fun _ => True) True True w v := topClause_progress h
  refine ⟨hprogress.found.reaches.dialect, fun htop => ?_⟩
  obtain ⟨g, _, hg, h⟩ := bind_ok.1 h
  obtain ⟨rfl, rfl⟩ := grammar_ok.1 hg
  rw [if_neg (by simpa using htop)] at h
  obtain ⟨-, rfl⟩ := pure_ok.1 h
  exact ⟨rfl, rfl⟩

theorem queryHead_keepsLimit {w : Workspace Query}
    (hq : w.cursor.current.type ≠ .symbol .question) :
    FollowsAt KeepsLimit w (queryHead rule) := by
  have list : Follows KeepsLimit (selectList rule) := by
    refine Follows.bind (.discard (.commaSeparated ?_)) fun _ => follows_current.bind fun t => ?_
    · exact (follows_selectItem rule).bind fun item => .modify (fun _ => rfl) fun _ => rfl
    · exact .modify (fun _ => rfl) fun _ => rfl
  refine (FollowsAt.advance hq).bind fun _ => follows_distinctClause.bind fun _ => ?_
  refine follows_grammar.bind fun g => (follows_skipAll _).bind fun _ => ?_
  exact topClause_keepsLimit.bind fun _ => list.bind fun _ => follows_refuseIf

/-! ## Up to the row limit -/

variable {n : ℕ} {w v : Workspace Query} {inner : List Query}

def queryFront (rule : ShardingRule) (n : ℕ) : Parser Query (List Query) := do
  queryHead rule
  let inner ← fromClause rule (queryLevel rule n)
  onFindings (whereClause rule)
  groupByClause
  havingClause
  orderByClause
  return inner

theorem queryLevel_front : queryLevel rule (n + 1) = (do
    let inner ← queryFront rule n
    limitClause
    setOperationClause
    return inner) := by
  simp only [queryLevel, queryFront, queryTail, bind_assoc, pure_bind]

theorem queryFront_ok (h : queryFront rule n w = .ok inner v) : ∃ w₁ w₂ w₃,
    queryHead rule w = .ok () w₁ ∧ fromClause rule (queryLevel rule n) w₁ = .ok inner w₂ ∧
      onFindings (whereClause rule) w₂ = .ok () w₃ ∧
      (do groupByClause; havingClause; orderByClause : Parser Query Unit) w₃ = .ok () v := by
  obtain ⟨_, w₁, h₁, h⟩ := bind_ok.1 h
  obtain ⟨_, w₂, h₂, h⟩ := bind_ok.1 h
  obtain ⟨_, w₃, h₃, h⟩ := bind_ok.1 h
  obtain ⟨_, w₄, h₄, h⟩ := bind_ok.1 h
  obtain ⟨_, w₅, h₅, h⟩ := bind_ok.1 h
  obtain ⟨_, w₆, h₆, h⟩ := bind_ok.1 h
  obtain ⟨rfl, rfl⟩ := pure_ok.1 h
  exact ⟨w₁, w₂, w₃, h₁, h₂, h₃, bind_ok.2 ⟨_, w₄, h₄, bind_ok.2 ⟨_, w₅, h₅, h₆⟩⟩⟩

theorem follows_sortingClauses {R : Workspace Query → Workspace Query → Prop} [SortingCourse R] :
    Follows R (do groupByClause; havingClause; orderByClause : Parser Query Unit) :=
  follows_groupByClause.bind fun _ => follows_havingClause.bind fun _ => follows_orderByClause

theorem queryFront_progress {P : Place → Cursor → Prop} {T C : Prop} (hT : T) (hC : C)
    (hP : QueryPlaces rule P) (hw : P .query w.cursor)
    (hq : w.cursor.current.type ≠ .symbol .question) (h : queryFront rule n w = .ok inner v) :
    LevelProgress rule (Names P) T C w v inner := by
  obtain ⟨w₁, w₂, w₃, h₁, h₂, h₃, h₄⟩ := queryFront_ok h
  have hhead : QueryProgress (Names P) T C w w₁ := queryHead_progress hq h₁
  have hfrom := fromClause_progress (C := C) hT hP (hP.head hw h₁)
    (fun hv hq hr => queryLevel_progress hT hC hP hv hq hr) h₂
  have hwhere : QueryProgress (Names P) T C w₂ w₃ :=
    Follows.onFindings (whereClause_progress hC rule) h₃
  exact hfrom.extend hhead (Course.trans hwhere (follows_sortingClauses h₄))

theorem queryFront_keepsLimit (hq : w.cursor.current.type ≠ .symbol .question)
    (h : queryFront rule n w = .ok [] v) : KeepsLimit w v := by
  obtain ⟨w₁, w₂, w₃, h₁, h₂, h₃, h₄⟩ := queryFront_ok h
  have hhead : KeepsLimit w w₁ := queryHead_keepsLimit hq h₁
  have hfrom : KeepsLimit w₁ w₂ := by
    cases fromClause_run h₂ with
    | absent => exact Stepwise.refl _
    | @tables c _ hat hc _ ht =>
      have hword : KeepsLimit w₁ ⟨c, w₁.draft⟩ :=
        Stepwise.advance (not_question_of_mem (by decide) hat) hc
      exact Stepwise.trans hword (KeepsLimit.onFindings tableReferences_keepsLimit ht)
    | query _ _ _ _ hn =>
      obtain ⟨_, _, _, _, -, -, -, hinner, -⟩ := nestedQuery_ok hn
      cases hinner
  have hwhere : KeepsLimit w₂ w₃ := KeepsLimit.onFindings whereClause_keepsLimit h₃
  have hsorting : KeepsLimit w₃ v := follows_sortingClauses h₄
  exact Stepwise.trans hhead (Stepwise.trans hfrom (Stepwise.trans hwhere hsorting))

/-! ## Behind the row limit -/

theorem derive_limitEdits (catalog : Catalog) (q : Query) :
    (q.derive catalog).findings.limitEdits = q.findings.limitEdits := by
  have hadd : ∀ (q : Query) (e : Edit), e.isLimit = false →
      (q.addEdit e).findings.limitEdits = q.findings.limitEdits := by
    intro q e he
    simp [Query.addEdit, Findings.addEdit, Findings.limitEdits, he]
  have hgrouped : ∀ q : Query, q.orderAsGrouped.findings.limitEdits = q.findings.limitEdits := by
    intro q
    unfold Query.orderAsGrouped
    split
    · rfl
    · exact hadd _ _ rfl
  unfold Query.derive
  split
  · rfl
  · rw [hgrouped]
    split
    · rfl
    · exact hadd _ _ rfl

end SqlFront

import SqlFront.Clause.Where
import SqlFront.Proofs.Progress.Expression

/-!
# WHERE

The clause leaves the tables alone. It adds conditions, and the placeholders among their values
are numbered by their place in the text.
-/

set_option autoImplicit false

namespace SqlFront

open SqlFront.Parser SqlFront.Clause

variable {N : Cursor → Prop} {T C : Prop} {R : Workspace Findings → Workspace Findings → Prop}
  [Expressive R] {w w' : Workspace Findings}

theorem Conditions.mem_add {cs : Conditions} {c x : Condition} :
    x ∈ (cs.add c).toList ↔ x ∈ cs.toList ∨ x = c := by
  obtain ⟨gs⟩ := cs
  cases gs with
  | nil => simp [add, toList]
  | cons g gs =>
    simp only [add, toList, List.flatMap_cons, List.mem_append, List.mem_singleton]
    exact or_right_comm

theorem Conditions.mem_push {cs : Conditions} {g : ConditionGroup} {x : Condition} :
    x ∈ (cs.push g).toList ↔ x ∈ cs.toList ∨ x ∈ g.conditions := by
  simp [push, toList]

/-! ## Values -/

theorem follows_inValues : Follows R inValues := by
  refine follows_isAtSubQuery.bind fun _ => .ite ?_ ?_
  · exact follows_skipParentheses.bind fun _ => .pure _
  · refine (follows_expectSymbol (by decide)).bind fun _ => ?_
    refine (Follows.commaSeparated follows_expression).bind fun _ => ?_
    exact (follows_expectSymbol (by decide)).bind fun _ => .pure _

theorem inValues_at {values : List Expression} (hr : inValues w = .ok (some values) w') :
    ∃ c c', w.cursor.isAt (.symbol .leftParen) = true ∧ w.cursor.advance = .ok c ∧
      SeparatedAt (ExpressionAt (Moves N w.cursor w.draft.placeholders)) (some (.symbol .comma))
        c c' values ∧ c'.Reaches w'.cursor := by
  obtain ⟨b, v, hb, h⟩ := bind_ok.1 hr
  obtain ⟨hv, -⟩ := isAtSubQuery_ok.1 hb
  rw [hv] at h
  cases b with
  | true =>
    obtain ⟨_, _, -, h⟩ := bind_ok.1 h
    cases h
  | false =>
    obtain ⟨_, _, hopen, h⟩ := bind_ok.1 h
    obtain ⟨hat, c, hc, rfl⟩ := expect_ok.1 hopen
    obtain ⟨xs, w₁, hxs, h⟩ := bind_ok.1 h
    obtain ⟨_, _, hclose, h⟩ := bind_ok.1 h
    obtain ⟨-, c', hc', rfl⟩ := expect_ok.1 hclose
    cases h
    have hvalues := Separated.expressionsAt (N := N) (by simp)
      (fun hx => ⟨(follows_expression (R := Progress N False False) hx).moves, expression_at hx⟩)
      (separated_run hxs)
    have hmoves : Moves N w.cursor w.draft.placeholders c w.draft.placeholders :=
      .token (isAt_eq_false hat (by simp)) hc
    exact ⟨c, w₁.cursor, hat, hc, hvalues.mono fun _ _ _ h => h.mono fun _ _ => hmoves.trans,
      .single hc'⟩

theorem follows_betweenValues : Follows R betweenValues := by
  refine follows_expression.bind fun _ => (follows_expectKeyword .AND).bind fun _ => ?_
  exact follows_expression.bind fun _ => .pure _

theorem betweenValues_at {values : List Expression} (h : betweenValues w = .ok values w') :
    SeparatedAt (ExpressionAt (Moves N w.cursor w.draft.placeholders)) (some (.keyword .AND))
      w.cursor w'.cursor values := by
  obtain ⟨low, w₁, hlow, h⟩ := bind_ok.1 h
  obtain ⟨_, _, hand, h⟩ := bind_ok.1 h
  obtain ⟨hat, c, hc, rfl⟩ := expect_ok.1 hand
  obtain ⟨high, w₂, hhigh, h⟩ := bind_ok.1 h
  cases h
  have hmoves : Moves N w.cursor w.draft.placeholders c w₁.draft.placeholders :=
    (follows_expression (R := Progress N False False) hlow).moves.trans
      (.token (isAt_eq_false hat (by simp)) hc)
  exact .next (expression_at hlow) (congrArg some (Cursor.isAt_iff.1 hat).symm) hc
    (.last ((expression_at hhigh).mono fun _ _ => hmoves.trans))

/-! ## Comparisons -/

theorem recordCondition_ok {rule : ShardingRule} {left : Expression} {op : ConditionOperator}
    {values : List Expression} {u : Unit} :
    recordCondition rule left op values w = .ok u w' ↔
      w' = ⟨w.cursor, match findColumn? w.draft left with
        | some column =>
          if values.all Expression.isShardingValue && rule.isShardingColumn column then
            w.draft.addCondition ⟨column, op, values⟩
          else w.draft
        | none => w.draft⟩ := by
  simp only [recordCondition, bind_ok, draft_ok]
  constructor
  · rintro ⟨_, _, ⟨rfl, rfl⟩, h⟩
    cases hc : findColumn? w.draft left with
    | none =>
      rw [hc] at h
      exact (pure_ok.1 h).2.symm
    | some column =>
      rw [hc] at h
      simp only at h ⊢
      split at h
      · next hs =>
        rw [if_pos hs]
        exact modifyDraft_ok.1 h
      · next hs =>
        rw [if_neg hs]
        exact (pure_ok.1 h).2.symm
  · rintro rfl
    refine ⟨_, _, ⟨rfl, rfl⟩, ?_⟩
    cases hc : findColumn? w.draft left with
    | none => rfl
    | some column =>
      simp only
      split
      · exact modifyDraft_ok.2 rfl
      · rfl

theorem columnName_of_findColumn {f : Findings} {left : Expression} {column : Column}
    (h : findColumn? f left = some column) : left.columnName? = some column.name := by
  cases left with
  | property owner name =>
    obtain ⟨_, -, rfl⟩ := Option.map_eq_some_iff.1 h
    rfl
  | identifier name =>
    obtain ⟨_, -, rfl⟩ := Option.map_eq_some_iff.1 h
    rfl
  | _ => cases h

theorem recordCondition_keeps {rule : ShardingRule} {left : Expression} {op : ConditionOperator}
    {values : List Expression} {u : Unit} (h : recordCondition rule left op values w = .ok u w') :
    w'.cursor = w.cursor ∧ w'.draft.edits = w.draft.edits := by
  obtain rfl := recordCondition_ok.1 h
  refine ⟨rfl, ?_⟩
  split
  · split <;> rfl
  · rfl

theorem recordCondition_progress {rule : ShardingRule} {left : Expression}
    {op : ConditionOperator} {values : List Expression} {w₀ : Workspace Findings} {u : Unit}
    (hC : C) (hw : Progress N T False w₀ w)
    (hplace : ∀ column : Column, left.columnName? = some column.name →
      OrderedAt (ComparisonAt (Moves N w₀.cursor w₀.draft.placeholders)) w₀.cursor w.cursor
        [⟨column, op, values⟩])
    (h : recordCondition rule left op values w = .ok u w') : Progress N T C w₀ w' := by
  have hkept : Progress N T C w₀ w := hw.mono False.elim
  obtain rfl := recordCondition_ok.1 h
  cases hcolumn : findColumn? w.draft left with
  | none => exact hkept
  | some column =>
    simp only
    split
    · exact .condition hC hkept hw.conditions_eq (hplace column (columnName_of_findColumn hcolumn))
    · exact hkept

theorem follows_pattern : Follows R pattern := by
  refine follows_expression.bind fun _ => (follows_skipKeyword _).bind fun _ => .ite ?_ (.pure _)
  exact follows_expression.bind fun _ => .pure _

theorem follows_negatedComparison : Follows R negatedComparison := by
  refine (follows_skipKeyword _).bind fun _ => .ite ?_ ?_
  · exact follows_skipParentheses.bind fun _ => .pure _
  refine (follows_skipKeyword _).bind fun _ => .ite ?_ ?_
  · exact follows_betweenValues.bind fun _ => .pure _
  exact (follows_skipKeywords _).bind fun _ => .ite follows_pattern (.pure _)

theorem follows_unrecordedComparison : Follows R unrecordedComparison := by
  refine (follows_skipKeyword _).bind fun _ => .ite follows_negatedComparison ?_
  refine (follows_skipKeyword _).bind fun _ => .ite ?_ ?_
  · exact (follows_skipKeyword _).bind fun _ => follows_expression.bind fun _ => .pure _
  refine (follows_skipKeywords _).bind fun _ => .ite follows_pattern ?_
  refine (follows_skipIf (by decide)).bind fun _ => .ite ?_ (.pure _)
  exact follows_expression.bind fun _ => .pure _

theorem follows_comparisonOf {rule : ShardingRule} {left : Expression}
    (hrecord : ∀ op values, Follows R (recordCondition rule left op values)) :
    Follows R (comparisonOf rule left) := by
  refine (follows_skipSymbol (by decide)).bind fun _ => .ite ?_ ?_
  · exact follows_expression.bind fun right => hrecord _ _
  refine (follows_skipKeyword _).bind fun _ => .ite ?_ ?_
  · refine follows_inValues.bind fun values? => ?_
    cases values? with
    | some values => exact hrecord _ _
    | none => exact .pure _
  refine (follows_skipKeyword _).bind fun _ => .ite ?_ follows_unrecordedComparison
  exact follows_betweenValues.bind fun values => hrecord _ _

theorem follows_openParentheses : Follows R openParentheses := by
  refine .repeatFrom fun opened => Follows.ifAt (fun w hp => ?_) fun w _ => (Follows.pure _).at w
  intro r w' h
  obtain ⟨b, w₁, hb, h⟩ := bind_ok.1 h
  obtain ⟨rfl, -⟩ := isAtSubQuery_ok.1 hb
  cases b with
  | true =>
    obtain ⟨-, rfl⟩ := pure_ok.1 h
    exact Stepwise.refl _
  | false =>
    obtain ⟨u, w₂, hu, h⟩ := bind_ok.1 h
    obtain ⟨c, hc, rfl⟩ := advance_ok.1 hu
    obtain ⟨-, rfl⟩ := pure_ok.1 h
    exact Stepwise.advance (isAt_eq_false hp (by simp)) hc

theorem follows_closeParentheses (n : ℕ) : Follows R (closeParentheses n) := by
  induction n with
  | zero => exact .pure _
  | succ n ih =>
    refine (follows_skipSymbol (by decide)).bind fun _ => .ite ?_ (.pure _)
    exact ih.bind fun _ => .pure _

theorem closeParentheses_walk {n m : ℕ} (hr : closeParentheses n w = .ok m w') :
    ∃ ts, w.cursor.Walk ts w'.cursor ∧ ∀ t ∈ ts, t.type = .symbol .rightParen := by
  induction n generalizing w m with
  | zero =>
    obtain ⟨-, rfl⟩ := pure_ok.1 hr
    exact ⟨[], .refl _, fun _ ht => by cases ht⟩
  | succ n ih =>
    obtain ⟨b, _, hb, h⟩ := bind_ok.1 hr
    obtain ⟨hat, hw⟩ := skipIf_single_ok.1 hb
    cases b with
    | false =>
      obtain rfl := hw
      obtain ⟨-, rfl⟩ := pure_ok.1 h
      exact ⟨[], .refl _, fun _ ht => by cases ht⟩
    | true =>
      obtain ⟨c, hc, rfl⟩ := hw
      obtain ⟨closed, _, hclosed, h⟩ := bind_ok.1 h
      obtain ⟨-, rfl⟩ := pure_ok.1 h
      obtain ⟨ts, hwalk, hts⟩ := ih hclosed
      exact ⟨_, .step hc hwalk, List.forall_mem_cons.2 ⟨Cursor.isAt_iff.1 hat, hts⟩⟩

section

variable {rule : ShardingRule}

/-- A comparison keeps what its right side keeps. -/
theorem follows_comparison (h : ∀ left, Follows R (comparisonOf rule left)) :
    Follows R (comparison rule) := by
  refine follows_openParentheses.bind fun opened => follows_expression.bind fun left => ?_
  refine (follows_closeParentheses _).bind fun closed => ?_
  exact (h left).bind fun _ => (follows_closeParentheses _).bind fun _ => .pure _

theorem follows_whereClause (h : Follows R (comparison rule)) :
    Follows R (whereClause rule) := by
  refine (follows_skipKeyword _).bind fun _ => .ite ?_ (.pure _)
  refine Follows.bind (.separated (by decide) h) fun _ => ?_
  exact follows_isAt.bind fun _ => .ite (.failAt _) (.pure _)

end

/-! ## Places of conditions -/

structure LeftRead (N : Cursor → Prop) (T : Prop) (w₀ w : Workspace Findings)
    (left : Expression) : Prop where
  moved : Progress N T False w₀ w
  place : ∃ c c₁ closing, w₀.cursor.Reaches c ∧
    ExpressionAt (Moves N w₀.cursor w₀.draft.placeholders) c c₁ left ∧
    (∀ t ∈ closing, t.type = .symbol .rightParen) ∧ c₁.Walk closing w.cursor

theorem LeftRead.comparisonAt {w₀ : Workspace Findings} {left : Expression} {c c₁ c₂ : Cursor}
    {column : Column} {op : ConditionOperator} {opening : List Token} {values : List Expression}
    (h : LeftRead N T w₀ w left) (hname : left.columnName? = some column.name)
    (hopening : opening.map Token.type = op.opening) (hwalk : w.cursor.Walk opening c)
    (hvalues : SeparatedAt (ExpressionAt (Moves N w₀.cursor w₀.draft.placeholders)) op.separator
      c c₁ values) (hc : c₁.Reaches c₂) :
    OrderedAt (ComparisonAt (Moves N w₀.cursor w₀.draft.placeholders)) w₀.cursor c₂
      [⟨column, op, values⟩] := by
  obtain ⟨c₃, c₄, closing, hreach, hleft, hclosing, hclosed⟩ := h.place
  exact .single hreach ⟨hleft, hname, hclosing, hopening, hclosed.append hwalk, hvalues⟩ hc

namespace LeftRead

variable {rule : ShardingRule} {left : Expression} {w₀ : Workspace Findings} {c : Cursor} {u : Unit}

/-! In each of these the word of the operator is passed already. -/

theorem equal (h : LeftRead N T w₀ w left) (hC : C) (hat : w.cursor.isAt (.symbol .equal) = true)
    (hc : w.cursor.advance = .ok c) (hw : Progress N T False w₀ ⟨c, w.draft⟩)
    (hr : (do recordCondition rule left .equal [← expression]) ⟨c, w.draft⟩ = .ok u w') :
    Progress N T C w₀ w' := by
  obtain ⟨right, w₁, hright, hr⟩ := bind_ok.1 hr
  have hopening : [w.cursor.current].map Token.type = ConditionOperator.equal.opening :=
    congrArg ([·]) (Cursor.isAt_iff.1 hat)
  have hvalue := (expression_at (N := N) hright).mono fun _ _ => hw.moves.trans
  exact recordCondition_progress hC (hw.trans (follows_expression hright))
    (fun column hname => h.comparisonAt hname hopening (.single hc) (.last hvalue) (.refl _)) hr

theorem oneOf (h : LeftRead N T w₀ w left) (hC : C) (hat : w.cursor.isAt (.keyword .IN) = true)
    (hc : w.cursor.advance = .ok c) (hw : Progress N T False w₀ ⟨c, w.draft⟩)
    (hr : (do match ← inValues with
      | some values => recordCondition rule left .oneOf values
      | none => return ()) ⟨c, w.draft⟩ = .ok u w') : Progress N T C w₀ w' := by
  obtain ⟨values?, w₁, hv, hr⟩ := bind_ok.1 hr
  have hread : Progress N T False w₀ w₁ := hw.trans (follows_inValues hv)
  cases values? with
  | none =>
    obtain ⟨-, rfl⟩ := pure_ok.1 hr
    exact hread.mono False.elim
  | some values =>
    obtain ⟨c₁, c₂, hopen, hc₁, hvalues, hend⟩ := inValues_at (N := N) hv
    have hopening : [w.cursor.current, c.current].map Token.type =
        ConditionOperator.oneOf.opening :=
      congrArg₂ ([·, ·]) (Cursor.isAt_iff.1 hat) (Cursor.isAt_iff.1 hopen)
    have hvalues := hvalues.mono fun _ _ _ h => h.mono fun _ _ => hw.moves.trans
    exact recordCondition_progress hC hread (fun column hname =>
      h.comparisonAt hname hopening (.step hc (.single hc₁)) hvalues hend) hr

theorem between (h : LeftRead N T w₀ w left) (hC : C)
    (hat : w.cursor.isAt (.keyword .BETWEEN) = true) (hc : w.cursor.advance = .ok c)
    (hw : Progress N T False w₀ ⟨c, w.draft⟩)
    (hr : (do recordCondition rule left .between (← betweenValues)) ⟨c, w.draft⟩ = .ok u w') :
    Progress N T C w₀ w' := by
  obtain ⟨values, w₁, hv, hr⟩ := bind_ok.1 hr
  have hopening : [w.cursor.current].map Token.type = ConditionOperator.between.opening :=
    congrArg ([·]) (Cursor.isAt_iff.1 hat)
  have hvalues := (betweenValues_at (N := N) hv).mono fun _ _ _ h =>
    h.mono fun _ _ => hw.moves.trans
  exact recordCondition_progress hC (hw.trans (follows_betweenValues hv)) (fun column hname =>
    h.comparisonAt hname hopening (.single hc) hvalues (.refl _)) hr

end LeftRead

theorem comparisonOf_progress {rule : ShardingRule} {left : Expression} {w₀ : Workspace Findings}
    {u : Unit} (hC : C) (hleft : LeftRead N T w₀ w left)
    (hr : comparisonOf rule left w = .ok u w') : Progress N T C w₀ w' := by
  obtain ⟨b, w₁, hb, hr₁⟩ := bind_ok.1 hr
  have h₁ : Progress N T False w₀ w₁ := hleft.moved.trans (follows_skipSymbol (by decide) hb)
  obtain ⟨hequal, hw₁⟩ := skipIf_single_ok.1 hb
  cases b with
  | true =>
    obtain ⟨c, hc, rfl⟩ := hw₁
    exact hleft.equal hC hequal hc h₁ hr₁
  | false =>
  obtain rfl := hw₁
  obtain ⟨b, w₂, hb, hr₂⟩ := bind_ok.1 hr₁
  have h₂ : Progress N T False w₀ w₂ := h₁.trans (follows_skipKeyword _ hb)
  obtain ⟨hin, hw₂⟩ := skipIf_single_ok.1 hb
  cases b with
  | true =>
    obtain ⟨c, hc, rfl⟩ := hw₂
    exact hleft.oneOf hC hin hc h₂ hr₂
  | false =>
  obtain rfl := hw₂
  obtain ⟨b, w₃, hb, hr₃⟩ := bind_ok.1 hr₂
  have h₃ : Progress N T False w₀ w₃ := h₂.trans (follows_skipKeyword _ hb)
  obtain ⟨hbetween, hw₃⟩ := skipIf_single_ok.1 hb
  cases b with
  | true =>
    obtain ⟨c, hc, rfl⟩ := hw₃
    exact hleft.between hC hbetween hc h₃ hr₃
  | false => exact (h₃.trans (follows_unrecordedComparison hr₃)).mono False.elim

theorem comparison_progress (hC : C) (rule : ShardingRule) :
    Follows (Progress N T C) (comparison rule) := by
  intro w u w' h
  obtain ⟨opened, w₁, ho, h⟩ := bind_ok.1 h
  obtain ⟨left, w₂, hx, h⟩ := bind_ok.1 h
  obtain ⟨closed, w₃, hclosed, h⟩ := bind_ok.1 h
  obtain ⟨_, w₄, hcomparison, h⟩ := bind_ok.1 h
  obtain ⟨_, w₅, hend, h⟩ := bind_ok.1 h
  obtain ⟨-, rfl⟩ := pure_ok.1 h
  have h₁ : Progress N T False w w₁ := follows_openParentheses ho
  have h₂ : Progress N T False w w₂ := h₁.trans (follows_expression hx)
  obtain ⟨closing, hwalk, hclosing⟩ := closeParentheses_walk hclosed
  have hleft : LeftRead N T w w₃ left :=
    ⟨h₂.trans (follows_closeParentheses _ hclosed), w₁.cursor, w₂.cursor, closing, h₁.reaches,
      (expression_at hx).mono fun _ _ => h₁.moves.trans, hclosing, hwalk⟩
  exact (comparisonOf_progress hC hleft hcomparison).trans (follows_closeParentheses _ hend)

theorem whereClause_progress (hC : C) (rule : ShardingRule) :
    Follows (Progress N T C) (whereClause rule) :=
  follows_whereClause (comparison_progress hC rule)

end SqlFront

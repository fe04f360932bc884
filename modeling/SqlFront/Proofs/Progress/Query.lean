import SqlFront.Clause.Ordering
import SqlFront.Clause.RowLimit
import SqlFront.Proofs.Progress.SelectList
import SqlFront.Proofs.Progress.Where
import SqlFront.Reading.Select

/-!
# The clauses around FROM and WHERE

GROUP BY, ORDER BY and row limits change neither the tables nor the conditions of a query. The
ordinals of a row limit are those of the placeholders in it.
-/

set_option autoImplicit false

namespace SqlFront

open SqlFront.Parser SqlFront.Clause SqlFront.Reading

variable {N : Cursor → Prop} {T C : Prop}

/-! ## Sort keys -/

section

variable {σ : Type} {R : Workspace σ → Workspace σ → Prop} [Stepwise R]

theorem follows_direction : Follows R (direction : Parser σ Direction) := by
  refine (follows_skipKeyword _).bind fun _ => .ite (.pure _) ?_
  exact (follows_skipKeyword _).bind fun _ => .pure _

theorem follows_havingClause : Follows R (havingClause : Parser σ Unit) := follows_refuseIf

end

theorem follows_orderItem {R : Workspace Query → Workspace Query → Prop} [Stepwise R]
    (direction nulls : Direction) (e : Expression) : Follows R (orderItem direction nulls e) := by
  refine follows_draft.bind fun q => follows_cursor.bind fun c => ?_
  generalize orderItem? q c.previousStop direction nulls e = item
  cases item with
  | ok item? => exact .pure item?
  | error fault => exact .throw fault

theorem follows_orderByItem {R : Workspace Query → Workspace Query → Prop} [FindingsCourse R] :
    Follows R orderByItem := by
  have rest : ∀ (d : Direction) (e : Expression), Follows R
      (do orderItem d (← grammar).nullsOrder e) :=
    fun d e => follows_grammar.bind fun g => follows_orderItem _ _ _
  refine FindingsCourse.expression.bind fun e => follows_direction.bind fun d => ?_
  refine (follows_skipKeyword _).bind fun _ => .ite ?_ (rest d e)
  exact (follows_skipKeywords _).bind fun _ => rest d e

class SortingCourse (R : Workspace Query → Workspace Query → Prop) : Prop
    extends QueryCourse R where
  keys {w : Workspace Query} (groupBy orderBy : List OrderItem) :
    R w ⟨w.cursor, { w.draft with groupBy := groupBy, orderBy := orderBy }⟩

instance : SortingCourse (QueryProgress N T C) where
  keys _ _ := .of_eq rfl rfl

section

variable {R : Workspace Query → Workspace Query → Prop} [SortingCourse R]

theorem follows_groupByItem : Follows R groupByItem := by
  refine FindingsCourse.expression.bind fun e => follows_direction.bind fun d => ?_
  refine (follows_orderItem _ _ _).bind fun item? => ?_
  cases item? with
  | some item =>
    intro w u w' h
    obtain rfl := modifyDraft_ok.1 h
    exact SortingCourse.keys _ _
  | none => exact .pure _

theorem follows_groupByClause : Follows R groupByClause := by
  refine (follows_skipKeyword _).bind fun _ => .ite ?_ (.pure _)
  refine (follows_expectKeyword .BY).bind fun _ => ?_
  refine Follows.bind (.discard (.commaSeparated follows_groupByItem)) fun _ => ?_
  refine follows_grammar.bind fun g => (follows_skipAll _).bind fun _ => ?_
  refine follows_cursor.bind fun c w u w' h => ?_
  obtain rfl := modifyDraft_ok.1 h
  exact QueryCourse.change rfl rfl rfl rfl rfl rfl

theorem follows_orderByClause : Follows R orderByClause := by
  have rest : Follows R (do
      expectKeyword .BY
      let items ← commaSeparated orderByItem
      modifyDraft fun q => { q with orderBy := q.orderBy ++ items.filterMap id }) := by
    refine (follows_expectKeyword .BY).bind fun _ => ?_
    refine (Follows.commaSeparated follows_orderByItem).bind fun items w u w' h => ?_
    obtain rfl := modifyDraft_ok.1 h
    exact SortingCourse.keys _ _
  refine (follows_skipKeyword _).bind fun _ => .ite ?_ (.pure _)
  refine follows_grammar.bind fun g => .ite ?_ rest
  exact (follows_skipKeyword _).bind fun _ => rest

end

/-! ## Row limits -/

section

variable {R : Workspace Findings → Workspace Findings → Prop} [Stepwise R]
  (hvalue : ∀ part, Follows R (limitValue part))

include hvalue

theorem follows_limitPart (word : Keyword) (part : LimitPart) : Follows R (limitPart word part) :=
  (follows_skipKeyword _).bind fun _ => .ite (hvalue part) (.pure _)

theorem follows_limitValues (comma : Bool) : Follows R (limitValues comma) := by
  have rest : ∀ b : Bool, Follows R (do
      if b then offsetAndRowCount
      else
        let rowCount? ← limitValue .rowCount
        let offset? ← limitPart .OFFSET .offset
        return (⟨offset?, rowCount?⟩ : RowLimit)) := by
    refine fun b => .ite ?_ ?_
    · refine (hvalue _).bind fun _ => (follows_expectSymbol (by decide)).bind fun _ => ?_
      exact (hvalue _).bind fun _ => .pure _
    · exact (hvalue _).bind fun _ => (follows_limitPart hvalue _ _).bind fun _ => .pure _
  cases comma with
  | true => exact follows_isAhead.bind rest
  | false => exact rest false

theorem follows_limitAndOffset (comma : Bool) : Follows R (limitAndOffset comma) := by
  refine (follows_skipKeyword _).bind fun _ => .ite (follows_limitValues hvalue comma) ?_
  refine (follows_skipKeyword _).bind fun _ => .ite ?_ (.pure _)
  exact (hvalue _).bind fun _ => (follows_limitPart hvalue _ _).bind fun _ => .pure _

theorem follows_topValue : Follows R topValue := by
  refine (follows_skipSymbol (by decide)).bind fun _ => .ite ?_ (hvalue _)
  refine (hvalue _).bind fun _ => (follows_expectSymbol (by decide)).bind fun _ => ?_
  exact .pure _

end

theorem literalValue_ok {part : LimitPart} {w w' : Workspace Findings} {v : LimitValue}
    (h : literalValue part w = .ok v w') : v.index? = none ∧ ∃ c value,
      w.cursor.isAt (.literal .int) = true ∧ w.cursor.advance = .ok c ∧
        w' = ⟨c, w.draft.addEdit (part.edit w.cursor.current.start value)⟩ := by
  simp only [literalValue, bind_ok, isAt_ok] at h
  obtain ⟨_, _, ⟨rfl, rfl⟩, h⟩ := h
  split at h
  · next hint =>
    obtain ⟨t, _, ht, h⟩ := bind_ok.1 h
    obtain ⟨rfl, rfl⟩ := current_ok.1 ht
    cases hvalue : Number.int64? 10 w.cursor.current.literals.toList with
    | none =>
      rw [hvalue] at h
      exact (failAt_ok.1 h).elim
    | some value =>
      rw [hvalue] at h
      obtain ⟨_, _, hm, h⟩ := bind_ok.1 h
      obtain rfl := modifyDraft_ok.1 hm
      obtain ⟨u, _, hu, h⟩ := bind_ok.1 h
      obtain ⟨c, hc, rfl⟩ := advance_ok.1 hu
      obtain ⟨rfl, rfl⟩ := pure_ok.1 h
      exact ⟨rfl, c, value, hint, hc, rfl⟩
  · exact (failAt_ok.1 h).elim

theorem literalValue_progress (part : LimitPart) :
    Follows (Progress N T C) (literalValue part) := by
  intro w v w' h
  obtain ⟨-, c, value, hint, hc, rfl⟩ := literalValue_ok h
  have he : Progress N T C w
      ⟨w.cursor, w.draft.addEdit (part.edit w.cursor.current.start value)⟩ :=
    .addEdit (by cases part <;> rfl)
  exact he.trans (.advance (isAt_eq_false hint (by simp)) hc)

theorem limitValue_ok {part : LimitPart} {w w' : Workspace Findings} {v? : Option LimitValue}
    (h : limitValue part w = .ok v? w') :
    (v? = none ∧ skipKeyword .ALL w = .ok true w') ∨
      (w.cursor.isAt (.symbol .question) = true ∧
        v? = some (.placeholder w.draft.placeholders) ∧
        ∃ c, w.cursor.advance = .ok c ∧ w' = ⟨c, w.draft.countPlaceholder⟩) ∨
      ∃ v, v? = some v ∧ literalValue part w = .ok v w' := by
  obtain ⟨b, w₁, hall, hrest⟩ := bind_ok.1 h
  cases b with
  | true =>
    obtain ⟨rfl, rfl⟩ := pure_ok.1 hrest
    exact Or.inl ⟨rfl, hall⟩
  | false =>
    obtain ⟨-, rfl⟩ := skipIf_ok.1 hall
    simp only [Bool.false_eq_true, if_false, bind_ok, isAt_ok] at hrest
    obtain ⟨_, _, ⟨rfl, rfl⟩, hrest⟩ := hrest
    split at hrest
    · next hq =>
      obtain ⟨_, _, hm, hrest⟩ := bind_ok.1 hrest
      obtain ⟨rfl, rfl⟩ := countPlaceholder_ok.1 hm
      obtain ⟨_, _, hu, hrest⟩ := bind_ok.1 hrest
      obtain ⟨c, hc, rfl⟩ := advance_ok.1 hu
      obtain ⟨rfl, rfl⟩ := pure_ok.1 hrest
      exact Or.inr (Or.inl ⟨hq, rfl, c, hc, rfl⟩)
    · obtain ⟨v, _, hv, hrest⟩ := bind_ok.1 hrest
      obtain ⟨rfl, rfl⟩ := pure_ok.1 hrest
      exact Or.inr (Or.inr ⟨v, rfl, hv⟩)

theorem limitValue_progress (part : LimitPart) : Follows (Progress N T C) (limitValue part) := by
  intro w v? w' h
  obtain ⟨-, hall⟩ | ⟨hq, -, c, hc, rfl⟩ | ⟨v, -, hv⟩ := limitValue_ok h
  · exact follows_skipKeyword _ hall
  · exact progress_placeholder hq hc
  · exact literalValue_progress part hv

theorem limitValue_step {part : LimitPart} {w w' : Workspace Findings} {v? : Option LimitValue}
    (h : limitValue part w = .ok v? w') : w.cursor.advance = .ok w'.cursor := by
  obtain ⟨-, hall⟩ | ⟨-, -, c, hc, rfl⟩ | ⟨v, -, hv⟩ := limitValue_ok h
  · obtain ⟨-, c, hc, rfl⟩ := skipIf_ok.1 hall
    exact hc
  · exact hc
  · obtain ⟨-, c, _, -, hc, rfl⟩ := literalValue_ok hv
    exact hc

theorem limitValue_placeholder {part : LimitPart} {w w' : Workspace Findings}
    {v? : Option LimitValue} {n : ℕ} (h : limitValue part w = .ok v? w')
    (hn : v?.bind LimitValue.index? = some n) :
    w.cursor.isAt (.symbol .question) = true ∧ n = w.draft.placeholders := by
  obtain ⟨rfl, -⟩ | ⟨hq, rfl, -⟩ | ⟨v, rfl, hv⟩ := limitValue_ok h
  · cases hn
  · exact ⟨hq, (Option.some.inj hn).symm⟩
  · rw [Option.bind_some, (literalValue_ok hv).1] at hn
    cases hn

/-! ## Places of row limits -/

section

variable {w w' : Workspace Findings} {v? : Option LimitValue} {part : LimitPart} {c : Cursor}
  {l : RowLimit} {comma : Bool}

theorem limitValue_at (hplace : part.Place w.cursor) (h : limitValue part w = .ok v? w') :
    part.At (Moves N w.cursor w.draft.placeholders) v? := by
  intro n hn
  obtain ⟨hq, rfl⟩ := limitValue_placeholder h hn
  exact ⟨w.cursor, hplace, hq, .refl _ _⟩

theorem limitPart_at {word : Keyword}
    (hplace : ∀ c, w.cursor.isAt (.keyword word) = true → w.cursor.advance = .ok c → part.Place c)
    (h : limitPart word part w = .ok v? w') :
    part.At (Moves N w.cursor w.draft.placeholders) v? := by
  obtain ⟨b, w₁, hb, h⟩ := bind_ok.1 h
  cases b with
  | true =>
    obtain ⟨hat, c, hc, rfl⟩ := skipIf_single_ok.1 hb
    have hmoves : Moves N w.cursor w.draft.placeholders c w.draft.placeholders :=
      .token (isAt_eq_false hat (by simp)) hc
    exact (limitValue_at (hplace c hat hc) h).mono fun _ _ => hmoves.trans
  | false =>
    obtain ⟨rfl, -⟩ := pure_ok.1 h
    exact LimitPart.at_none

theorem offsetAndRowCount_at (hlimit : c.isAt (.keyword .LIMIT) = true)
    (hc : c.advance = .ok w.cursor) (h : offsetAndRowCount w = .ok l w') :
    l.At (Moves N w.cursor w.draft.placeholders) := by
  obtain ⟨offset?, w₁, ho, h⟩ := bind_ok.1 h
  obtain ⟨_, _, hcomma, h⟩ := bind_ok.1 h
  obtain ⟨hat, c₂, hc₂, rfl⟩ := expect_ok.1 hcomma
  obtain ⟨rowCount?, w₂, hr, h⟩ := bind_ok.1 h
  obtain ⟨rfl, -⟩ := pure_ok.1 h
  have hmoves : Moves N w.cursor w.draft.placeholders c₂ w₁.draft.placeholders :=
    (limitValue_progress (T := False) (C := False) _ ho).moves.trans
      (.token (isAt_eq_false hat (by simp)) hc₂)
  exact ⟨limitValue_at (.offsetBefore hlimit hc (limitValue_step ho) hat) ho,
    (limitValue_at (.countAfter hlimit hc (limitValue_step ho) hat hc₂) hr).mono fun _ _ =>
      hmoves.trans⟩

theorem rowCountFirst_at {w₁ : Workspace Findings} {offset? rowCount? : Option LimitValue}
    (hlimit : c.isAt (.keyword .LIMIT) = true) (hc : c.advance = .ok w.cursor)
    (hcomma : w.cursor.dialect.grammar.rowLimit = .limit true →
      ∀ t, w.cursor.peek = .ok t → t.type ≠ .symbol .comma)
    (hr : limitValue .rowCount w = .ok rowCount? w₁)
    (ho : limitPart .OFFSET .offset w₁ = .ok offset? w') :
    RowLimit.At (Moves N w.cursor w.draft.placeholders) ⟨offset?, rowCount?⟩ := by
  have hmoves : Moves N w.cursor w.draft.placeholders w₁.cursor w₁.draft.placeholders :=
    (limitValue_progress (T := False) (C := False) _ hr).moves
  exact ⟨(limitPart_at (fun _ => .offset) ho).mono fun _ _ => hmoves.trans,
    limitValue_at (.count hlimit hc hcomma) hr⟩

theorem limitValues_at (hgrammar : w.cursor.dialect.grammar.rowLimit = .limit comma)
    (hlimit : c.isAt (.keyword .LIMIT) = true) (hc : c.advance = .ok w.cursor)
    (hr : limitValues comma w = .ok l w') : l.At (Moves N w.cursor w.draft.placeholders) := by
  have rest : ∀ b : Bool, (b = false → w.cursor.dialect.grammar.rowLimit = .limit true →
      ∀ t, w.cursor.peek = .ok t → t.type ≠ .symbol .comma) → (do
        if b then offsetAndRowCount
        else
          let rowCount? ← limitValue .rowCount
          let offset? ← limitPart .OFFSET .offset
          return (⟨offset?, rowCount?⟩ : RowLimit)) w = .ok l w' →
      l.At (Moves N w.cursor w.draft.placeholders) := by
    intro b hcomma h
    cases b with
    | true => exact offsetAndRowCount_at hlimit hc h
    | false =>
      obtain ⟨rowCount?, w₁, hcount, h⟩ := bind_ok.1 h
      obtain ⟨offset?, w₂, hoffset, h⟩ := bind_ok.1 h
      obtain ⟨rfl, -⟩ := pure_ok.1 h
      exact rowCountFirst_at hlimit hc (hcomma rfl) hcount hoffset
  cases comma with
  | true =>
    obtain ⟨b, _, hb, h⟩ := bind_ok.1 hr
    obtain ⟨⟨t, ht, hcomma⟩, rfl⟩ := isAhead_ok.1 hb
    refine rest b (fun hfalse _ x hx => ?_) h
    obtain rfl := Except.ok.inj (ht.symm.trans hx)
    simpa [hfalse] using hcomma
  | false =>
    refine rest false (fun _ htrue => ?_) hr
    rw [hgrammar] at htrue
    cases htrue

theorem limitAndOffset_at (hgrammar : w.cursor.dialect.grammar.rowLimit = .limit comma)
    (hlimit : limitAndOffset comma w = .ok l w') : l.At (Moves N w.cursor w.draft.placeholders) := by
  obtain ⟨b, w₁, hb, h⟩ := bind_ok.1 hlimit
  obtain ⟨hat, hw₁⟩ := skipIf_single_ok.1 hb
  cases b with
  | true =>
    obtain ⟨c, hc, rfl⟩ := hw₁
    have hmoves : Moves N w.cursor w.draft.placeholders c w.draft.placeholders :=
      .token (isAt_eq_false hat (by simp)) hc
    rw [← Cursor.advance_dialect hc] at hgrammar
    exact (limitValues_at hgrammar hat hc h).mono fun _ _ => hmoves.trans
  | false =>
    obtain rfl := hw₁
    obtain ⟨b, w₂, hb, h⟩ := bind_ok.1 h
    obtain ⟨hat, hw₂⟩ := skipIf_single_ok.1 hb
    cases b with
    | true =>
      obtain ⟨c, hc, rfl⟩ := hw₂
      obtain ⟨offset?, w₃, ho, h⟩ := bind_ok.1 h
      obtain ⟨rowCount?, w₄, hr, h⟩ := bind_ok.1 h
      obtain ⟨rfl, -⟩ := pure_ok.1 h
      have h₁ : Moves N w₁.cursor w₁.draft.placeholders c w₁.draft.placeholders :=
        .token (isAt_eq_false hat (by simp)) hc
      have h₂ : Moves N w₁.cursor w₁.draft.placeholders w₃.cursor w₃.draft.placeholders :=
        h₁.trans (limitValue_progress (T := False) (C := False) _ ho).moves
      exact ⟨(limitValue_at (.offset hat hc) ho).mono fun _ _ => h₁.trans,
        (limitPart_at (fun _ => .countBehind hat hc (limitValue_step ho)) hr).mono fun _ _ =>
          h₂.trans⟩
    | false =>
      obtain ⟨rfl, -⟩ := pure_ok.1 h
      exact ⟨LimitPart.at_none, LimitPart.at_none⟩

theorem topValue_at (htop : c.isAt (.keyword .TOP) = true) (hc : c.advance = .ok w.cursor)
    (hr : topValue w = .ok v? w') :
    LimitPart.rowCount.At (Moves N w.cursor w.draft.placeholders) v? := by
  obtain ⟨b, w₁, hb, h⟩ := bind_ok.1 hr
  obtain ⟨hat, hw₁⟩ := skipIf_single_ok.1 hb
  cases b with
  | true =>
    obtain ⟨c₁, hc₁, rfl⟩ := hw₁
    obtain ⟨_, w₂, hv, h⟩ := bind_ok.1 h
    obtain ⟨_, w₃, -, h⟩ := bind_ok.1 h
    obtain ⟨rfl, -⟩ := pure_ok.1 h
    have hmoves : Moves N w.cursor w.draft.placeholders c₁ w.draft.placeholders :=
      .token (isAt_eq_false hat (by simp)) hc₁
    exact (limitValue_at (.topInside htop hc hat hc₁) hv).mono fun _ _ => hmoves.trans
  | false =>
    obtain rfl := hw₁
    exact limitValue_at (.top htop hc hat) h

end

/-! ## Limits of queries -/

theorem setLimit_progress {w w' : Workspace Query} {l : RowLimit} (hw : QueryProgress N T C w w')
    (hl : l.At (Moves N w.cursor w.draft.findings.placeholders)) :
    QueryProgress N T C w ⟨w'.cursor, { w'.draft with limit? := some l }⟩ :=
  ⟨hw.found, fun h => Or.inr (Option.some.inj h ▸ hl)⟩

theorem limitClause_progress : Follows (QueryProgress N T C) limitClause := by
  intro w u w' h
  obtain ⟨g, _, hg, h⟩ := bind_ok.1 h
  obtain ⟨rfl, rfl⟩ := grammar_ok.1 hg
  generalize hgrammar : w.cursor.dialect.grammar.rowLimit = form at h
  cases form with
  | limit comma =>
    obtain ⟨l, w₁, hl, h⟩ := bind_ok.1 h
    obtain ⟨c, f, hf, rfl⟩ := onFindings_ok.1 hl
    have hw : QueryProgress N T C w ⟨c, setFindings w.draft f⟩ :=
      Course.lift (follows_limitAndOffset limitValue_progress comma hf)
    split at h
    · obtain rfl := modifyDraft_ok.1 h
      exact setLimit_progress hw (limitAndOffset_at hgrammar hf)
    · obtain ⟨-, rfl⟩ := pure_ok.1 h
      exact hw
  | _ => exact Follows.pure _ h

theorem topClause_progress : Follows (QueryProgress N T C) topClause := by
  refine follows_grammar.bind fun g => .ite ?_ (.pure _)
  intro w u w' h
  obtain ⟨b, w₁, hb, h⟩ := bind_ok.1 h
  obtain ⟨hat, hw₁⟩ := skipIf_single_ok.1 hb
  have h₁ : QueryProgress N T C w w₁ := follows_skipKeyword _ hb
  cases b with
  | false =>
    obtain ⟨-, rfl⟩ := pure_ok.1 h
    exact h₁
  | true =>
  obtain ⟨c₁, hc₁, rfl⟩ := hw₁
  obtain ⟨rowCount?, w₂, hr, h⟩ := bind_ok.1 h
  obtain ⟨c, f, hf, rfl⟩ := onFindings_ok.1 hr
  have hlimit : RowLimit.At (Moves N w.cursor w.draft.findings.placeholders) ⟨none, rowCount?⟩ :=
    ⟨LimitPart.at_none, (topValue_at hat hc₁ hf).mono fun _ _ => h₁.found.moves.trans⟩
  have limited : ∀ {v : Workspace Query}, QueryProgress N T C w v →
      (if rowCount?.isSome then
        modifyDraft fun q : Query => { q with limit? := some ⟨none, rowCount?⟩ }
      else pure ()) v = .ok u w' → QueryProgress N T C w w' := by
    intro v hv h
    split at h
    · obtain rfl := modifyDraft_ok.1 h
      exact setLimit_progress hv hlimit
    · obtain ⟨-, rfl⟩ := pure_ok.1 h
      exact hv
  obtain ⟨b, w₃, hb, h⟩ := bind_ok.1 h
  obtain ⟨b', w₄, hb', h⟩ := bind_ok.1 h
  have h₂ : QueryProgress N T C w ⟨c, setFindings w.draft f⟩ :=
    Course.trans h₁ (Course.lift (follows_topValue limitValue_progress hf))
  have h₃ := Course.trans h₂ (follows_skipKeyword _ hb)
  have h₄ := Course.trans h₃ (follows_skipKeyword _ hb')
  cases b' with
  | true =>
    obtain ⟨_, w₅, he, h⟩ := bind_ok.1 h
    exact limited (Course.trans h₄ (follows_expectKeyword _ he)) h
  | false => exact limited h₄ h

class TailCourse (R : Workspace Query → Workspace Query → Prop) : Prop
    extends QueryCourse R where
  setLimit (limit? : Option RowLimit) : Follows R (modifyDraft fun q => { q with limit? := limit? })
  top : Follows R (onFindings topValue)
  limits (comma : Bool) : Follows R (onFindings (limitAndOffset comma))

section

variable {R : Workspace Query → Workspace Query → Prop} [TailCourse R]

theorem follows_topClause : Follows R topClause := by
  refine follows_grammar.bind fun g => .ite ?_ (.pure _)
  refine (follows_skipKeyword _).bind fun _ => .ite ?_ (.pure _)
  refine TailCourse.top.bind fun rowCount? => (follows_skipKeyword _).bind fun _ => ?_
  have hlimit : Follows R (if rowCount?.isSome then
      modifyDraft fun q : Query => { q with limit? := some ⟨none, rowCount?⟩ }
    else pure ()) := .ite (TailCourse.setLimit _) (.pure _)
  refine (follows_skipKeyword _).bind fun _ => ?_
  exact .ite ((follows_expectKeyword _).bind fun _ => hlimit) hlimit

theorem follows_limitClause : Follows R limitClause := by
  refine follows_grammar.bind fun g => ?_
  split
  · refine (TailCourse.limits _).bind fun limit => ?_
    exact .ite (TailCourse.setLimit _) (.pure _)
  · exact .pure _

theorem follows_queryTail [SortingCourse R] : Follows R queryTail := by
  refine follows_groupByClause.bind fun _ => follows_havingClause.bind fun _ => ?_
  refine follows_orderByClause.bind fun _ => follows_limitClause.bind fun _ => ?_
  exact follows_setOperationClause

end

/-! ## Around FROM and WHERE -/

theorem queryHead_progress {rule : ShardingRule} {w : Workspace Query}
    (hq : w.cursor.current.type ≠ .symbol .question) :
    FollowsAt (QueryProgress N T C) w (queryHead rule) := by
  refine (FollowsAt.advance hq).bind fun _ => follows_distinctClause.bind fun _ => ?_
  refine follows_grammar.bind fun g => (follows_skipAll _).bind fun _ => ?_
  refine topClause_progress.bind fun _ => (selectList_progress rule).bind fun _ => ?_
  exact follows_refuseIf

theorem queryTail_progress : Follows (QueryProgress N T C) queryTail := by
  refine follows_groupByClause.bind fun _ => follows_havingClause.bind fun _ => ?_
  refine follows_orderByClause.bind fun _ => limitClause_progress.bind fun _ => ?_
  exact follows_setOperationClause

end SqlFront

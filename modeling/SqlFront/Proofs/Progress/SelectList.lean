import SqlFront.Clause.SelectList
import SqlFront.Proofs.Progress.Expression

/-!
# Aliases, assignments and select lists

None of them changes the tables or the conditions. The owner of a column or of a star may become a
place to edit.
-/

set_option autoImplicit false

namespace SqlFront

open SqlFront.Parser SqlFront.Clause

variable {N : Cursor → Prop} {T C : Prop} {σ : Type} {R : Workspace σ → Workspace σ → Prop}
  [Stepwise R]

/-! ## Aliases and assignments -/

theorem follows_nameHere {w : Workspace σ} (hq : w.cursor.current.type ≠ .symbol .question) :
    FollowsAt R w (nameHere : Parser σ String) := by
  intro a w' h
  obtain ⟨t, _, ht, h⟩ := bind_ok.1 h
  obtain ⟨-, rfl⟩ := current_ok.1 ht
  exact (FollowsAt.advance hq).bind (fun _ => .pure _) h

/-- A symbol is no alias. -/
theorem follows_alias? : Follows R (alias? : Parser σ (Option String)) := by
  refine (follows_skipKeyword .AS).bind fun _ => .ite (Follows.atCurrent fun w => ?_) ?_
  · refine .ite (fun _ => (Follows.pure none).at w) fun hs => ?_
    refine (follows_nameHere fun hq => hs ?_).bind fun _ => .pure _
    rw [hq]
    rfl
  · intro w a w' h
    simp only [bind_ok, isAtAny_ok] at h
    obtain ⟨_, _, ⟨rfl, rfl⟩, h⟩ := h
    split at h
    · next hat =>
      refine FollowsAt.bind (follows_nameHere fun hq => ?_) (fun _ => .pure _) h
      simp [Cursor.isAtAny_iff, hq] at hat
    · exact Follows.pure none h

theorem follows_assignmentSign {R : Workspace Findings → Workspace Findings → Prop} [Stepwise R] :
    Follows R assignmentSign := by
  refine (follows_skipIf (by decide)).bind fun _ => .ite ?_ (.pure _)
  exact follows_expectSymbol (by decide)

theorem follows_casts {R : Workspace Findings → Workspace Findings → Prop} [Passing R] :
    Follows R (whileM (skipSymbol .doubleColon) Parser.advance) := by
  intro w u w' h
  refine whileM_induct (I := fun v => R w v) (Q := fun v => R w v) ?_ ?_ (Stepwise.refl w) h
  · intro v v₁ v₂ u hv hs hu
    obtain ⟨hat, c, hc, rfl⟩ := skipIf_ok.1 hs
    obtain ⟨c', hc', rfl⟩ := advance_ok.1 hu
    refine Stepwise.trans hv (Passing.member ?_ hc hc')
    rw [Cursor.isAtAny_iff] at hat ⊢
    exact List.mem_cons_of_mem _ hat
  · intro v v₁ hv hs
    obtain ⟨-, rfl⟩ := skipIf_ok.1 hs
    exact hv

theorem follows_assignment {R : Workspace Findings → Workspace Findings → Prop} [Expressive R] :
    Follows R assignment := by
  have rest : Follows R (do
      assignmentSign
      let _ ← expression
      whileM (skipSymbol .doubleColon) Parser.advance) :=
    follows_assignmentSign.bind fun _ => follows_expression.bind fun _ => follows_casts
  refine follows_isAt.bind fun _ => .ite ?_ ?_
  · exact follows_skipParentheses.bind fun _ => rest
  · exact follows_expression.bind fun _ => rest

theorem follows_updateAssignments {R : Workspace Findings → Workspace Findings → Prop}
    [Expressive R] : Follows R updateAssignments :=
  (follows_expectKeyword .SET).bind fun _ => .discard (.commaSeparated follows_assignment)

/-! ## Select lists -/

theorem follows_distinctClause : Follows R (distinctClause : Parser σ Unit) :=
  (follows_skipKeyword .ALL).bind fun _ => follows_grammar.bind fun _ => follows_refuseIf

theorem follows_setOperationClause : Follows R (setOperationClause : Parser σ Unit) :=
  follows_grammar.bind fun _ => follows_refuseIf

theorem follows_skipCase {R : Workspace Findings → Workspace Findings → Prop} [Passing R] :
    Follows R skipCase := by
  refine .repeatFrom fun depth => Follows.atCurrent fun w => ?_
  split
  case h_1 ht => exact (FollowsAt.advance (by simp [ht])).bind fun _ => .pure _
  case h_2 hq => exact .placeholder hq fun _ => .pure _
  case h_3 ht => exact (FollowsAt.advance (by simp [ht])).bind fun _ => .ite (.pure _) (.pure _)
  case h_4 => exact (Follows.pure _).at w
  case h_5 hq _ _ => exact (FollowsAt.advance hq).bind fun _ => .pure _

theorem ownedOperand_ok {rule : ShardingRule} {t : Token} {w w' : Workspace Findings}
    {item : Option SelectItem} (h : ownedOperand rule t w = .ok item w') :
    ∃ c, w.cursor.advance = .ok c ∧
      (w' = ⟨c, w.draft⟩ ∨ w' = ⟨c, w.draft.addEdit (.table t.start t.literals)⟩) := by
  have passed : ∀ {v : Workspace Findings}, (do
      if ← skipSymbol .star then return some (.star (some (unquoted t.literals)))
      else
        Parser.advance
        return none : Parser Findings (Option SelectItem)) v = .ok item w' →
      ∃ c, v.cursor.advance = .ok c ∧ w' = ⟨c, v.draft⟩ := by
    intro v hr
    obtain ⟨b, v₁, hb, h⟩ := bind_ok.1 hr
    obtain ⟨-, hv⟩ := skipIf_ok.1 hb
    cases b with
    | true =>
      obtain ⟨c, hc, rfl⟩ := hv
      obtain ⟨-, rfl⟩ := pure_ok.1 h
      exact ⟨c, hc, rfl⟩
    | false =>
      obtain rfl := hv
      obtain ⟨_, _, ha, h⟩ := bind_ok.1 h
      obtain ⟨c, hc, rfl⟩ := advance_ok.1 ha
      obtain ⟨-, rfl⟩ := pure_ok.1 h
      exact ⟨c, hc, rfl⟩
  simp only [ownedOperand] at h
  split at h
  · obtain ⟨_, _, hm, h⟩ := bind_ok.1 h
    obtain rfl := modifyDraft_ok.1 hm
    obtain ⟨c, hc, rfl⟩ := passed h
    exact ⟨c, hc, Or.inr rfl⟩
  · obtain ⟨c, hc, rfl⟩ := passed h
    exact ⟨c, hc, Or.inl rfl⟩

theorem operandRest_follows {R : Workspace Findings → Workspace Findings → Prop} [Expressive R]
    {rule : ShardingRule} {w w₁ w' : Workspace Findings} {item : Option SelectItem}
    (hc : w.cursor.advance = .ok w₁.cursor) (hw : R w w₁) (hedits : KeepsEdits w w₁)
    (hr : operandRest rule w.cursor.current w₁ = .ok item w') : R w w' := by
  simp only [operandRest, bind_ok, isAt_ok] at hr
  obtain ⟨_, _, ⟨rfl, rfl⟩, h⟩ := hr
  split at h
  · exact Stepwise.trans hw ((follows_skipParentheses.bind fun _ => .pure _) h)
  · obtain ⟨b, w₂, hb, hn⟩ := bind_ok.1 h
    obtain ⟨hat, hw₂⟩ := skipIf_ok.1 hb
    cases b with
    | false =>
      obtain rfl := hw₂
      obtain ⟨-, rfl⟩ := pure_ok.1 hn
      exact hw
    | true =>
      obtain ⟨c, hc₁, rfl⟩ := hw₂
      obtain ⟨c', hc', hw'⟩ := ownedOperand_ok hn
      have hdot : w₁.cursor.isAt (.symbol .dot) = true := by
        rwa [Cursor.isAtAny_singleton] at hat
      have hmember : w₁.cursor.isAtAny [.symbol .dot, .symbol .doubleColon] = true :=
        Cursor.isAtAny_iff.2 (List.mem_cons.2 (Or.inl (Cursor.isAt_iff.1 hdot)))
      have hname : R w ⟨c', w₁.draft⟩ := Stepwise.trans hw (Passing.member hmember hc₁ hc')
      have hkept : KeepsEdits w ⟨c', w₁.draft⟩ := hedits
      rcases hw' with rfl | rfl
      · exact hname
      · exact Expressive.owner hc hdot ((Cursor.Reaches.single hc₁).trans (.single hc')) hkept hname

theorem follows_firstOperand {R : Workspace Findings → Workspace Findings → Prop} [Expressive R]
    {rule : ShardingRule} : Follows R (firstOperand rule) := by
  refine Follows.atCurrent fun w => ?_
  intro item w' h
  simp only [bind_ok, isAt_ok] at h
  obtain ⟨_, _, ⟨rfl, rfl⟩, h⟩ := h
  split at h
  · exact (follows_skipCase.bind fun _ => .pure _) h
  · obtain ⟨u, w₁, hu, h⟩ := bind_ok.1 h
    obtain ⟨c, hc, hw₁⟩ := skipToken_ok hu
    have hcursor : w₁.cursor = c := by
      rcases hw₁ with ⟨-, rfl⟩ | ⟨-, rfl⟩ <;> rfl
    exact operandRest_follows (hcursor ▸ hc) (follows_skipToken hu) (follows_skipToken hu) h

theorem follows_nextOperand {R : Workspace Findings → Workspace Findings → Prop} [Passing R] :
    Follows R nextOperand := by
  refine Follows.atCurrent fun w => .ite (fun hn => ?_) fun _ => ?_
  · refine (FollowsAt.advance fun hq => ?_).bind fun _ => .pure _
    have h := not_question_of_negative hn
    simp [Cursor.isAt, hq] at h
  · refine ((follows_skipIf (by decide)).bind fun _ => .ite ?_ (.pure _)).at w
    refine follows_isAt.bind fun _ => .ite ?_ ?_
    · exact follows_skipCase.bind fun _ => .pure _
    · exact follows_skipOperand.bind fun _ => .pure _

theorem follows_commonItem {R : Workspace Findings → Workspace Findings → Prop} [Expressive R]
    (rule : ShardingRule) : Follows R (commonItem rule) := by
  refine follows_current.bind fun t => follows_firstOperand.bind fun item? => ?_
  cases item? with
  | some item => exact .pure item
  | none =>
    refine (Follows.whileM follows_nextOperand (.pure _)).bind fun _ => ?_
    exact follows_cursor.bind fun c => follows_alias?.bind fun _ => .pure _

class FindingsCourse [HasFindings σ] (R : Workspace σ → Workspace σ → Prop) : Prop
    extends Stepwise R where
  parentheses : Follows R (onFindings skipParentheses)
  expression : Follows R (onFindings expression)

instance [HasFindings σ] [LawfulFindings σ] {R : Workspace σ → Workspace σ → Prop}
    [Course N T C R] : FindingsCourse R where
  parentheses := .onFindings follows_skipParentheses
  expression := .onFindings follows_expression

class QueryCourse (R : Workspace Query → Workspace Query → Prop) : Prop
    extends FindingsCourse R where
  item (rule : ShardingRule) : Follows R (onFindings (commonItem rule))
  change {w : Workspace Query} {q : Query} : q.findings = w.draft.findings →
    q.items = w.draft.items → q.groupBy = w.draft.groupBy → q.orderBy = w.draft.orderBy →
    q.limit? = w.draft.limit? → q.isDerived = w.draft.isDerived → R w ⟨w.cursor, q⟩

theorem QueryProgress.of_eq {w : Workspace Query} {q : Query} (hf : q.findings = w.draft.findings)
    (hl : q.limit? = w.draft.limit?) : QueryProgress N T C w ⟨w.cursor, q⟩ :=
  ⟨.of_findings hf, fun h => Or.inl (hl.symm.trans h)⟩

instance : QueryCourse (QueryProgress N T C) where
  item rule := .onFindings (follows_commonItem rule)
  change hf _ _ _ hl _ := .of_eq hf hl

theorem follows_aggregationItem {R : Workspace Query → Workspace Query → Prop} [FindingsCourse R]
    {function : Aggregate} {w : Workspace Query}
    (hq : w.cursor.current.type ≠ .symbol .question) : FollowsAt R w (aggregationItem function) := by
  refine (FollowsAt.advance hq).bind fun _ => FindingsCourse.parentheses.bind fun _ => ?_
  exact follows_alias?.bind fun _ => .pure _

theorem aggregateHere?_ok {w w' : Workspace σ} {a : Option Aggregate}
    (h : (aggregateHere? : Parser σ (Option Aggregate)) w = .ok a w') :
    w' = w ∧ (a.isSome → w.cursor.current.type ≠ .symbol .question) := by
  obtain ⟨t, _, ht, h⟩ := bind_ok.1 h
  obtain ⟨rfl, rfl⟩ := current_ok.1 ht
  generalize hf : w.cursor.current.type.keyword?.bind Aggregate.ofKeyword? = function at h
  cases function with
  | some function =>
    have hq : w.cursor.current.type ≠ .symbol .question := by
      intro hq
      simp [hq, TokenType.keyword?] at hf
    obtain ⟨b, _, hb, h⟩ := bind_ok.1 h
    obtain ⟨-, rfl⟩ := isAhead_ok.1 hb
    cases b with
    | true => exact ⟨(pure_ok.1 h).2.symm, fun _ => hq⟩
    | false => exact ⟨(pure_ok.1 h).2.symm, fun _ => hq⟩
  | none =>
    obtain ⟨rfl, rfl⟩ := pure_ok.1 h
    exact ⟨rfl, fun h => by simp at h⟩

theorem follows_selectItem {R : Workspace Query → Workspace Query → Prop} [QueryCourse R]
    (rule : ShardingRule) : Follows R (selectItem rule) := by
  refine follows_grammar.bind fun g => (follows_skipKeywords _).bind fun _ => ?_
  refine (follows_skipSymbol (by decide)).bind fun _ => .ite ?_ ?_
  · refine .bind ?_ fun _ => .pure _
    intro w u w' h
    obtain rfl := modifyDraft_ok.1 h
    exact QueryCourse.change rfl rfl rfl rfl rfl rfl
  · intro w item w' h
    obtain ⟨a, w₁, ha, h⟩ := bind_ok.1 h
    obtain ⟨rfl, hq⟩ := aggregateHere?_ok ha
    cases a with
    | some function => exact follows_aggregationItem (hq rfl) h
    | none => exact QueryCourse.item rule h

theorem selectList_progress (rule : ShardingRule) :
    Follows (QueryProgress N T C) (selectList rule) := by
  refine Follows.bind (.discard (.commaSeparated ?_)) fun _ => ?_
  · refine (follows_selectItem rule).bind fun item w u v h => ?_
    obtain rfl := modifyDraft_ok.1 h
    exact .of_eq rfl rfl
  · refine follows_current.bind fun t w u w' h => ?_
    obtain rfl := modifyDraft_ok.1 h
    exact .of_eq rfl rfl

end SqlFront

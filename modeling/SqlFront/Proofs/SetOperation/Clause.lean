import SqlFront.Proofs.Progress.Query
import SqlFront.Proofs.SetOperation.Place

/-!
# Readers in front of a set operation

No reader of a clause moves past a set operation that stands where a query can end. Each is shown to
keep it ahead, from a cursor that is not on it where a name or an operand is read, and else from any
cursor up to it.
-/

set_option autoImplicit false

namespace SqlFront

open SqlFront.Parser SqlFront.Clause Marked

variable {m : Marked} {σ : Type}

section

variable (h : m.Exposed)

include h

/-! ## Parentheses and CASE -/

theorem carries_skipParentheses : Carries m.UpTo skipParentheses fun _ => m.UpTo := by
  refine .isAt_bind (.current_bind fun t => ?_) (.pure fun _ hc => hc)
  refine .bind (.advance (Q := m.Within (.symbol .leftParen) (.symbol .rightParen) 1)
    fun c c' hc ha => h.step_opening hc.1.1 hc.1.2 (by decide) ha) fun _ => ?_
  refine Carries.repeatFrom (a := 0) (A := fun depth =>
    m.Within (.symbol .leftParen) (.symbol .rightParen) (depth + 1)) fun depth => ?_
  refine .current_bind fun t => ?_
  -- One token further, with so many parentheses open behind it.
  have hstep : ∀ {k : ℕ}, (k ≤ if t.type = .symbol .leftParen then depth + 2
      else if t.type = .symbol .rightParen then depth else depth + 1) →
      Carries (fun c => m.Within (.symbol .leftParen) (.symbol .rightParen) (depth + 1) c ∧
        c.current = t) (Parser.advance : Parser Findings Unit)
        fun _ => m.Within (.symbol .leftParen) (.symbol .rightParen) k := by
    intro k hk
    refine .advance ?_
    rintro c c' ⟨hc, rfl⟩ ha
    exact hc.step h.groups ha hk
  split
  case h_1 ht =>
    exact .bind .countPlaceholder fun _ => .bind (hstep (by simp [ht])) fun _ => .pure fun _ hc => hc
  case h_2 ht => exact .bind (hstep (by simp [ht])) fun _ => .pure fun _ hc => hc
  case h_3 ht =>
    refine .bind (hstep (k := depth) (by simp [ht])) fun _ => .ite (fun _ => ?_) fun hdepth => ?_
    · exact .cursor_bind fun _ => .pure fun _ hc => hc.upTo
    · exact .pure fun _ hc => by simpa [Nat.sub_add_cancel (Nat.pos_of_ne_zero hdepth)] using hc
  case h_4 => exact .cursor_bind fun _ => .pure fun _ hc => hc.1.upTo
  case h_5 hleft hright _ =>
    refine .bind (hstep (k := depth + 1) ?_) fun _ => .pure fun _ hc => hc
    rw [if_neg hleft, if_neg hright]

theorem carries_skipCase :
    Carries (fun c => m.UpTo c ∧ c.current.type = .keyword .CASE) skipCase fun _ => m.UpTo := by
  let A : ℕ → Cursor → Prop := fun depth c =>
    m.Within (.keyword .CASE) (.keyword .END) depth c ∧ (depth = 0 → c.current.type = .keyword .CASE)
  have hfirst : ∀ c, m.UpTo c ∧ c.current.type = .keyword .CASE → A 0 c :=
    fun c ⟨⟨xs, hxs⟩, ht⟩ => ⟨⟨xs, hxs, Nat.zero_le _⟩, fun _ => ht⟩
  refine .weaken (Carries.repeatFrom (a := 0) (A := A) fun depth => ?_) hfirst
  refine .current_bind fun t => ?_
  have hopen : t.type = .keyword .CASE → Carries (fun c => A depth c ∧ c.current = t)
      (Parser.advance : Parser Findings Unit) fun _ => A (depth + 1) := by
    intro ht
    refine .advance ?_
    rintro c c' ⟨⟨hc, -⟩, rfl⟩ ha
    refine ⟨?_, by simp⟩
    cases depth with
    | zero => exact h.step_opening hc.upTo ht (by decide) ha
    | succ n => exact hc.step h.cases ha (by simp [ht])
  have hinside : t.type ≠ .keyword .CASE → Carries (fun c => A depth c ∧ c.current = t)
      (Parser.advance : Parser Findings Unit) fun _ c => depth ≠ 0 ∧
        m.Within (.keyword .CASE) (.keyword .END) (if t.type = .keyword .END then depth - 1 else depth) c := by
    intro ht
    refine .advance ?_
    rintro c c' ⟨⟨hc, hfront⟩, rfl⟩ ha
    cases depth with
    | zero => exact (ht (hfront rfl)).elim
    | succ n => exact ⟨by simp, hc.step h.cases ha (by simp [ht])⟩
  have hother : t.type ≠ .keyword .CASE → t.type ≠ .keyword .END →
      Carries (fun c => A depth c ∧ c.current = t)
        (do Parser.advance; return .inl depth : Parser Findings (ℕ ⊕ Unit))
        fun r c => Sum.elim (A · c) (fun _ => m.UpTo c) r := by
    intro hcase hend
    refine .bind (hinside hcase) fun _ => .pure fun c hc => ?_
    rw [if_neg hend] at hc
    exact ⟨hc.2, fun hzero => (hc.1 hzero).elim⟩
  split
  case h_1 ht => exact .bind (hopen ht) fun _ => .pure fun _ hc => hc
  case h_2 ht => exact .bind .countPlaceholder fun _ => hother (by simp [ht]) (by simp [ht])
  case h_3 ht =>
    refine .bind (hinside (by simp [ht])) fun _ => ?_
    rw [if_pos ht]
    refine .ite (fun _ => .pure fun _ hc => hc.2.upTo) fun hdepth => .pure fun c hc => ?_
    exact ⟨hc.2, by omega⟩
  case h_4 => exact .pure fun _ hc => hc.1.1.upTo
  case h_5 hcase _ hend _ => exact hother hcase hend

end

/-! ## Names and operands -/

theorem not_operation_of_negative {t : Token} (ht : isNegativeNumber t = true) :
    t.type ∉ operationTypes := by
  simp only [isNegativeNumber, Bool.and_eq_true, Bool.or_eq_true, beq_iff_eq] at ht
  rcases ht.1 with ht | ht <;> rw [ht] <;> decide

theorem carries_rawFrom {start : ℕ} : Carries m.UpTo (rawFrom start) fun _ => m.UpTo :=
  .cursor_bind fun _ => .pure fun _ hc => hc

theorem carries_primary {P : Cursor → Prop} : Carries P primary fun _ => P := by
  refine .isAt_bind ?_ (.current_bind fun _ => .pure fun _ hc => hc.1)
  exact .bind .countPlaceholder fun _ => .pure fun _ hc => hc.1

theorem carries_nameHere : Carries m.ShortOf (nameHere : Parser σ String) fun _ => m.UpTo :=
  .current_bind fun _ => .bind (.advance fun _ _ hc ha => hc.1.step ha) fun _ => .pure fun _ hc => hc

section

variable (h : m.Exposed)

include h

theorem carries_alias? : Carries m.UpTo (alias? : Parser σ (Option String)) fun _ => m.UpTo := by
  have hname : Carries m.ShortOf (do return some (← nameHere) : Parser σ (Option String))
      fun _ => m.UpTo := .bind carries_nameHere fun _ => .pure fun _ hc => hc
  refine .skipIf_bind (h.steps_caller (by decide)) ?_ ?_
  · refine .current_bind fun t => .ite (fun _ => .pure fun _ hc => hc.1.upTo) fun _ => ?_
    exact hname.weaken fun _ hc => hc.1
  · refine .isAtAny_bind (hname.weaken fun c hc => h.shortOf hc.1 ?_) (.pure fun _ hc => hc)
    have hapart : ∀ t ∈ [TokenType.literal .identifier, .literal .chars], t ∉ operationTypes := by
      decide
    exact hapart _ hc.2

theorem carries_skipOperand : Carries m.ShortOf skipOperand fun _ => m.UpTo := by
  have hskip : Carries m.UpTo (do let _ ← skipParentheses) fun _ => m.UpTo :=
    .bind (carries_skipParentheses h) fun _ => .pure fun _ hc => hc
  have hrest : Carries m.ShortOf (do
      if ← isAt (.symbol .leftParen) then
        let _ ← skipParentheses
      else
        Parser.advance
        let _ ← skipParentheses) fun _ => m.UpTo := by
    refine .isAt_bind (hskip.weaken fun _ hc => hc.1.upTo) ?_
    exact .bind (.advance fun _ _ hc ha => hc.step ha) fun _ => hskip
  exact .isAt_bind (.bind .countPlaceholder fun _ => hrest.weaken fun _ hc => hc.1) hrest

theorem carries_skipOperations : Carries m.UpTo skipOperations fun _ => m.UpTo :=
  .whileM (.skipIf (h.steps_caller (by decide))) (carries_skipOperand h)

theorem carries_skipContinuation : Carries m.UpTo skipContinuation fun _ => m.UpTo := by
  refine .isAtAny_bind ?_ (.current_bind fun t => .ite (fun hn => ?_) fun _ => .pure fun _ hc => hc.1)
  · exact .bind ((carries_skipOperations h).weaken fun _ hc => hc.1) fun _ => .pure fun _ hc => hc
  · refine .bind (.advance (Q := m.UpTo) ?_) fun _ => .pure fun _ hc => hc
    rintro c c' ⟨hc, rfl⟩ ha
    exact (h.shortOf hc (not_operation_of_negative hn)).step ha

theorem carries_operandChain : Carries m.ShortOf operandChain fun _ => m.UpTo := by
  have hgroup : ∀ start, Carries m.UpTo (do
      let _ ← skipParentheses
      skipOperations
      rawFrom start) fun _ => m.UpTo := fun start =>
    .bind (carries_skipParentheses h) fun _ => .bind (carries_skipOperations h) fun _ => carries_rawFrom
  have hend : ∀ (start : ℕ) (e : Expression), Carries m.UpTo
      (do if ← skipContinuation then rawFrom start else return e) fun _ => m.UpTo := fun start e =>
    .bind (carries_skipContinuation h) fun _ => .ite (fun _ => carries_rawFrom) fun _ => .pure fun _ hc => hc
  have hshort : Carries m.ShortOf (Parser.advance : Parser Findings Unit) fun _ => m.UpTo :=
    .advance fun _ _ hc ha => hc.step ha
  refine .current_bind fun t => ?_
  refine .isAt_bind ((hgroup t.start).weaken fun _ hc => hc.1.1.upTo) ?_
  refine .weaken (.bind carries_primary fun e => .bind hshort fun _ => ?_) fun _ hc => hc.1
  refine .skipIf_bind (h.steps_caller (by decide)) ?_ ?_
  · refine .current_bind fun _ => .weaken (.bind hshort fun _ => hend _ _) fun _ hc => hc.1
  · exact .isAt_bind ((hgroup t.start).weaken fun _ hc => hc.1) (hend _ _)

theorem carries_expression : Carries m.ShortOf expression fun _ => m.UpTo := by
  intro w e w' hw hr
  obtain ⟨w₁, hchain, hend⟩ := expression_ok hr
  have hkeep : m.UpTo w₁.cursor := carries_operandChain h hw hchain
  rcases hend with rfl | ⟨-, rfl⟩
  · exact hkeep
  · exact hkeep

/-! ## Table references -/

theorem carries_skipIndexHints : Carries m.UpTo skipIndexHints fun _ => m.UpTo := by
  have hparens : Carries m.UpTo (do let _ ← skipParentheses) fun _ => m.UpTo :=
    .bind (carries_skipParentheses h) fun _ => .pure fun _ hc => hc
  refine .grammar_bind (fun _ hc => hc.dialect) (.ite (fun _ => ?_) fun _ => .pure fun _ hc => hc)
  refine .whileM (.skipIf (h.steps_other (by decide))) ?_
  refine .bind (.optional (h.steps_other (by decide))) fun _ => ?_
  refine .skipIf_bind (h.steps_caller (by decide)) ?_ hparens
  refine .bind (.advance fun _ _ hc ha => hc.step ha) fun _ => ?_
  exact .bind (.optional (h.steps_other (by decide))) fun _ => hparens

omit h in
theorem carries_tableToken : Carries m.ShortOf tableToken fun _ => m.UpTo := by
  refine .current_bind fun t => .bind (.advance fun _ _ hc ha => hc.1.step ha) fun _ => ?_
  exact .isAt_bind (.bind .throw fun _ => .pure fun _ hc => hc) (.pure fun _ hc => hc)

theorem carries_tableFactor {rule : ShardingRule} {single : Bool} :
    Carries m.ShortOf (tableFactor rule single) fun _ => m.UpTo := by
  refine .bind (carries_tableToken) fun t => .bind (carries_alias? h) fun _ => ?_
  refine .ite (fun _ => .bind .modifyDraft fun _ => carries_skipIndexHints h) fun _ => ?_
  exact carries_skipIndexHints h

theorem carries_joinType : Carries m.UpTo joinType fun b c => if b then m.ShortOf c else m.UpTo c := by
  have hwords : ∀ t ∈ keywordTypes (joinWords ++ m.dialect.grammar.joins),
      t ∈ callers ++ ownCallers m.dialect := by
    cases m.dialect <;> decide
  refine .grammar_bind (fun _ hc => hc.dialect) (.isAtAny_bind ?_ (.pure fun _ hc => hc))
  refine .bind (.skipAll_from (h.steps_own hwords) ?_) fun _ => .pure fun _ hc => hc
  exact fun _ _ hc ht ha => h.steps_own hwords hc.upTo ht ha

theorem carries_joinCondition : Carries m.UpTo joinCondition fun _ => m.UpTo := by
  refine .skipIf_bind (h.steps_caller (by decide)) ?_ ?_
  · refine .discard (.separated ?_ (h.steps_caller (by decide)))
    refine .bind (carries_expression h) fun _ => .skipIf_bind (h.steps_caller (by decide)) ?_ ?_
    · exact .bind (carries_expression h) fun _ => .pure fun _ hc => hc
    · refine .bind (.expect (h.steps_caller (by decide))) fun _ => ?_
      exact .bind (carries_expression h) fun _ => .pure fun _ hc => hc
  · refine .skipIf_bind (h.steps_other (by decide)) ?_ (.pure fun _ hc => hc)
    exact .bind (carries_skipParentheses h) fun _ => .pure fun _ hc => hc

theorem carries_joins {rule : ShardingRule} : Carries m.UpTo (joins rule) fun _ => m.UpTo := by
  refine .whileM (carries_joinType h) ?_
  refine .isAt_bind (.bind (.failAt (A := fun _ => m.ShortOf)) fun _ => ?_) ?_
  · exact .bind (carries_tableFactor h) fun _ => carries_joinCondition h
  · exact .bind (carries_tableFactor h) fun _ => carries_joinCondition h

theorem carries_tableReferences {rule : ShardingRule} {single : Bool} :
    Carries m.ShortOf (tableReferences rule single) fun _ => m.UpTo := by
  have hlist : Carries m.ShortOf (commaSeparated do
      tableFactor rule single
      joins rule) fun _ => m.UpTo :=
    .separated (.bind (carries_tableFactor h) fun _ => carries_joins h) (h.steps_caller (by decide))
  refine .current_bind fun t => .weaken (.bind hlist.discard fun _ => ?_) fun _ hc => hc.1
  exact .draft_bind fun f => .ite (fun _ => .throw) fun _ => .pure fun _ hc => hc

/-! ## WHERE -/

omit h in
theorem carries_recordCondition {P : Cursor → Prop} {rule : ShardingRule} {left : Expression}
    {operator : ConditionOperator} {values : List Expression} :
    Carries P (recordCondition rule left operator values) fun _ => P := by
  intro w u w' hw hr
  obtain rfl := recordCondition_ok.1 hr
  exact hw

theorem carries_inValues : Carries m.UpTo inValues fun _ => m.UpTo := by
  refine .bind .isAtSubQuery fun _ => .ite (fun _ => ?_) fun _ => ?_
  · exact .bind (carries_skipParentheses h) fun _ => .pure fun _ hc => hc
  · refine .bind (.expect h.steps_leftParen) fun _ => ?_
    refine .bind (.separated (carries_expression h) (h.steps_caller (by decide))) fun _ => ?_
    exact .bind (.expect (h.steps_other (by decide))) fun _ => .pure fun _ hc => hc

theorem carries_betweenValues : Carries m.ShortOf betweenValues fun _ => m.UpTo := by
  refine .bind (carries_expression h) fun _ => .bind (.expect (h.steps_caller (by decide))) fun _ => ?_
  exact .bind (carries_expression h) fun _ => .pure fun _ hc => hc

theorem carries_pattern : Carries m.ShortOf pattern fun _ => m.UpTo := by
  refine .bind (carries_expression h) fun _ => .skipIf_bind (h.steps_caller (by decide)) ?_ (.pure fun _ hc => hc)
  exact .bind (carries_expression h) fun _ => .pure fun _ hc => hc

theorem carries_negatedComparison : Carries m.UpTo negatedComparison fun _ => m.UpTo := by
  refine .skipIf_bind (h.steps_other (by decide)) ?_ (.skipIf_bind (h.steps_caller (by decide)) ?_ ?_)
  · exact .bind (carries_skipParentheses h) fun _ => .pure fun _ hc => hc
  · exact .bind (carries_betweenValues h) fun _ => .pure fun _ hc => hc
  · exact .skipIf_bind (h.steps_caller (by decide)) (carries_pattern h) (.pure fun _ hc => hc)

theorem carries_unrecordedComparison : Carries m.UpTo unrecordedComparison fun _ => m.UpTo := by
  have hexpression : Carries m.ShortOf (do let _ ← expression) fun _ => m.UpTo :=
    .bind (carries_expression h) fun _ => .pure fun _ hc => hc
  refine .skipIf_bind (h.steps_other (by decide)) (carries_negatedComparison h) ?_
  refine .skipIf_bind (h.steps_caller (by decide)) ?_ ?_
  · refine .bind (.optional ?_) fun _ => hexpression
    exact fun _ _ hc ht ha => h.steps_caller (by decide) hc.upTo ht ha
  · refine .skipIf_bind (h.steps_caller (by decide)) (carries_pattern h) ?_
    exact .skipIf_bind (h.steps_caller (by decide)) hexpression (.pure fun _ hc => hc)

theorem carries_comparisonOf {rule : ShardingRule} {left : Expression} :
    Carries m.UpTo (comparisonOf rule left) fun _ => m.UpTo := by
  refine .skipIf_bind (h.steps_caller (by decide)) ?_ ?_
  · exact .bind (carries_expression h) fun _ => carries_recordCondition
  refine .skipIf_bind (h.steps_other (by decide)) ?_ ?_
  · refine .bind (carries_inValues h) fun values? => ?_
    cases values? with
    | some values => exact carries_recordCondition
    | none => exact .pure fun _ hc => hc
  refine .skipIf_bind (h.steps_caller (by decide)) ?_ (carries_unrecordedComparison h)
  exact .bind (carries_betweenValues h) fun _ => carries_recordCondition

theorem carries_openParentheses : Carries m.ShortOf openParentheses fun _ => m.ShortOf := by
  refine Carries.repeatFrom (a := 0) (A := fun _ => m.ShortOf) fun opened => ?_
  refine .isAt_bind ?_ (.pure fun _ hc => hc)
  refine .bind .isAtSubQuery fun _ => .ite (fun _ => .pure fun _ hc => hc.1) fun _ => ?_
  refine .bind (.advance (Q := m.ShortOf) fun c c' hc ha => ?_) fun _ => .pure fun _ hc => hc
  exact h.steps_leftParen hc.1.upTo (List.mem_singleton.2 hc.2) ha

theorem carries_closeParentheses {n : ℕ} : Carries m.UpTo (closeParentheses n) fun _ => m.UpTo := by
  induction n with
  | zero => exact .pure fun _ hc => hc
  | succ n ih =>
    refine .skipIf_bind (h.steps_other (by decide)) ?_ (.pure fun _ hc => hc)
    exact .bind ih fun _ => .pure fun _ hc => hc

theorem carries_comparison {rule : ShardingRule} :
    Carries m.ShortOf (comparison rule) fun _ => m.UpTo := by
  refine .bind (carries_openParentheses h) fun opened => .bind (carries_expression h) fun left => ?_
  refine .bind (carries_closeParentheses h) fun closed => .bind (carries_comparisonOf h) fun _ => ?_
  exact .bind (carries_closeParentheses h) fun _ => .pure fun _ hc => hc

theorem carries_whereClause {rule : ShardingRule} :
    Carries m.UpTo (whereClause rule) fun _ => m.UpTo := by
  refine .skipIf_bind (h.steps_caller (by decide)) ?_ (.pure fun _ hc => hc)
  refine .bind (.separated (carries_comparison h) (h.steps_caller (by decide))) fun _ => ?_
  exact .isAt_bind .failAt (.pure fun _ hc => hc)

/-! ## Select lists -/

omit h in
theorem carries_skipToken : Carries m.ShortOf skipToken fun _ => m.UpTo := by
  have hstep : Carries m.ShortOf (Parser.advance : Parser Findings Unit) fun _ => m.UpTo :=
    .advance fun _ _ hc ha => hc.step ha
  exact .isAt_bind (.bind .countPlaceholder fun _ => hstep.weaken fun _ hc => hc.1) hstep

omit h in
theorem carries_ownedOperand {rule : ShardingRule} {t : Token} :
    Carries m.ShortOf (ownedOperand rule t) fun _ => m.UpTo := by
  have hmember : Carries m.ShortOf (do
      if ← skipSymbol .star then return some (.star (some (unquoted t.literals)))
      else
        Parser.advance
        return none : Parser Findings (Option SelectItem)) fun _ => m.UpTo := by
    refine .skipIf_bind steps_short (.pure fun _ hc => hc) ?_
    exact .bind (.advance fun _ _ hc ha => hc.step ha) fun _ => .pure fun _ hc => hc
  exact .ite (fun _ => .bind .modifyDraft fun _ => hmember) fun _ => hmember

theorem carries_operandRest {rule : ShardingRule} {t : Token} :
    Carries m.UpTo (operandRest rule t) fun _ => m.UpTo := by
  refine .isAt_bind ?_ ?_
  · exact .weaken (.bind (carries_skipParentheses h) fun _ => .pure fun _ hc => hc) fun _ hc => hc.1
  · exact .skipIf_bind (h.steps_caller (by decide)) carries_ownedOperand (.pure fun _ hc => hc)

theorem carries_firstOperand {rule : ShardingRule} :
    Carries m.ShortOf (firstOperand rule) fun _ => m.UpTo := by
  refine .current_bind fun t => .weaken (.isAt_bind ?_ ?_) fun _ hc => hc.1
  · refine .weaken (.bind (carries_skipCase h) fun _ => .pure fun _ hc => hc) fun _ hc => ?_
    exact ⟨hc.1.upTo, hc.2⟩
  · exact .bind carries_skipToken fun _ => carries_operandRest h

theorem carries_nextOperand : Carries m.UpTo nextOperand fun _ => m.UpTo := by
  refine .current_bind fun t => .ite (fun hn => ?_) fun _ => ?_
  · refine .bind (.advance (Q := m.UpTo) ?_) fun _ => .pure fun _ hc => hc
    rintro c c' ⟨hc, rfl⟩ ha
    exact (h.shortOf hc (not_operation_of_negative hn)).step ha
  refine .weaken (.skipIf_bind (h.steps_caller (by decide)) ?_ (.pure fun _ hc => hc)) fun _ hc => hc.1
  refine .isAt_bind ?_ ?_
  · refine .weaken (.bind (carries_skipCase h) fun _ => .pure fun _ hc => hc) fun _ hc => ?_
    exact ⟨hc.1.upTo, hc.2⟩
  · exact .bind (carries_skipOperand h) fun _ => .pure fun _ hc => hc

theorem carries_commonItem {rule : ShardingRule} :
    Carries m.ShortOf (commonItem rule) fun _ => m.UpTo := by
  refine .current_bind fun t => .weaken (.bind (carries_firstOperand h) fun item? => ?_) fun _ hc => hc.1
  cases item? with
  | some item => exact .pure fun _ hc => hc
  | none =>
    refine .bind (.whileM (Q := m.UpTo) (R := m.UpTo) ?_ (.pure fun _ hc => hc)) fun _ => ?_
    · exact (carries_nextOperand h).mono fun b _ hc => by cases b <;> simpa using hc
    · exact .cursor_bind fun c => .bind (carries_alias? h) fun _ => .pure fun _ hc => hc

omit h in
theorem carries_aggregateHere? {P : Cursor → Prop} :
    Carries P (aggregateHere? : Parser σ (Option Aggregate)) fun _ => P := by
  refine .current_bind fun t => ?_
  split
  · exact .bind .isAhead fun _ => .ite (fun _ => .pure fun _ hc => hc.1) fun _ => .pure fun _ hc => hc.1
  · exact .pure fun _ hc => hc.1

theorem carries_selectItem {rule : ShardingRule} :
    Carries m.ShortOf (selectItem rule) fun _ => m.UpTo := by
  have hbefore : ∀ t ∈ keywordTypes m.dialect.grammar.beforeSelectItem,
      t ∈ callers ++ ownCallers m.dialect := by
    cases m.dialect <;> decide
  refine .grammar_bind (fun _ hc => hc.upTo.dialect) (.bind (.optional ?_) fun _ => ?_)
  · exact fun _ _ hc ht ha => h.steps_own hbefore hc.upTo ht ha
  refine .skipIf_bind steps_short (.bind .modifyDraft fun _ => .pure fun _ hc => hc) ?_
  refine .bind carries_aggregateHere? fun function? => ?_
  cases function? with
  | some function =>
    refine .bind (.advance fun _ _ hc ha => hc.step ha) fun _ => ?_
    refine .bind (.onFindings (carries_skipParentheses h)) fun _ => ?_
    exact .bind (carries_alias? h) fun _ => .pure fun _ hc => hc
  | none => exact .onFindings (carries_commonItem h)

theorem carries_selectList {rule : ShardingRule} :
    Carries m.ShortOf (selectList rule) fun _ => m.UpTo := by
  refine .bind (.discard (.separated (Q := m.UpTo) ?_ (h.steps_caller (by decide)))) fun _ => ?_
  · exact .bind (carries_selectItem h) fun _ => .modifyDraft
  · exact .current_bind fun _ => .weaken .modifyDraft fun _ hc => hc.1

end

end SqlFront

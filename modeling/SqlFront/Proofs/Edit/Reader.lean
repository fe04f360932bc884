import SqlFront.Proofs.Edit.Source
import SqlFront.Proofs.Progress.Change
import SqlFront.Proofs.Progress.Query

/-!
# Readers that edit

Every reader of a clause edits tokens on its way. The name of a table and the name of an index are
taken as they stand, so that the readers of these names may also edit the end of the text.
-/

set_option autoImplicit false

namespace SqlFront

open SqlFront.Parser SqlFront.Clause SqlFront.Reading

variable {rule : ShardingRule}

/-! ## Taking any token -/

section

variable {σ : Type} [HasFindings σ]

theorem follows_anyToken : Follows (EditsNothing (σ := σ)) Parser.advance := by
  intro w u w' h
  obtain ⟨c, hc, rfl⟩ := advance_ok.1 h
  exact ⟨Cursor.Reaches.single hc, rfl⟩

theorem nameHere_edits : Follows (EditsNothing (σ := σ)) nameHere :=
  follows_current.bind fun _ => follows_anyToken.bind fun _ => .pure _

theorem skipUntil_edits (ts : List TokenType) : Follows (EditsNothing (σ := σ)) (skipUntil ts) :=
  .whileM (follows_isAtAny.bind fun _ => follows_cursor.bind fun _ => .pure _) follows_anyToken

end

theorem skipIndexHints_edits : Follows EditsNothing skipIndexHints := by
  refine follows_grammar.bind fun g => .ite (.whileM (follows_skipKeywords _) ?_) (.pure _)
  refine (follows_skipKeywords _).bind fun _ => (follows_skipKeyword _).bind fun _ => .ite ?_ ?_
  · refine follows_anyToken.bind fun _ => (follows_skipKeyword _).bind fun _ => ?_
    exact follows_skipParentheses.bind fun _ => .pure _
  · exact follows_skipParentheses.bind fun _ => .pure _

/-! ## Owners -/

theorem isAtEnd_eq_false {c : Cursor} {t : TokenType} (h : c.isAt t = true)
    (ht : t ≠ .endOfText) : c.isAtEnd = false := isAt_eq_false h ht

/-- In front of the end of the text the cursor moves. -/
theorem Cursor.Ordered.before {c c' : Cursor} (h : c.Ordered) (hc : c.advance = .ok c')
    (hend : c'.isAtEnd = false) : c.isAtEnd = false := by
  obtain ⟨-, ⟨-, hsame⟩ | ⟨hfront, -⟩⟩ := h.step hc
  · rw [isAtEnd, ← hsame]
    exact hend
  · exact hfront

section

variable {w w₁ : Workspace Findings} {c : Cursor} {e : Edit} {f : Findings}

/-- The edit of a token that has been left. -/
theorem EditsPlaces.left (hc : w.cursor.advance = .ok c) (h : EditsNothing ⟨c, w.draft⟩ w₁)
    (hf : f.edits = w₁.draft.edits ++ [e]) (he : e.isSource = true)
    (hplace : e.start = w.cursor.current.start) : EditsPlaces w ⟨w₁.cursor, f⟩ := by
  have hsources : Workspace.sources ⟨w₁.cursor, f⟩ = w.sources ++ [e] := by
    have hsame : Edit.sources w₁.draft.edits = w.sources := h.same
    change Edit.sources f.edits = w.sources ++ [e]
    rw [hf, Edit.sources_add he, hsame]
  rw [EditsPlaces, hsources]
  exact .single hc h.reaches hplace

/-- An owner is a token of the text, because its dot comes behind it. -/
theorem EditsTokens.owner (hc : w.cursor.advance = .ok c) (hdot : c.isAt (.symbol .dot) = true)
    (h : EditsNothing ⟨c, w.draft⟩ w₁) (hf : f.edits = w₁.draft.edits ++ [e])
    (he : e.isSource = true) (hplace : e.start = w.cursor.current.start) :
    EditsTokens w ⟨w₁.cursor, f⟩ := by
  refine ⟨EditsPlaces.left hc h hf he hplace, fun ho hend => ?_⟩
  rw [ho.before hc (isAtEnd_eq_false hdot (by simp))] at hend
  cases hend

end

instance : Expressive (EditsTokens (σ := Findings)) where
  owner hc hdot hreach hedits _ :=
    .owner hc hdot ⟨hreach, congrArg Edit.sources hedits⟩ rfl rfl rfl

/-! ## Queries -/

/-- The edit of a token of the text, which is left. -/
theorem EditsTokens.here {σ : Type} [HasFindings σ] {w : Workspace σ} {c : Cursor} {s : σ}
    {e : Edit} (hend : w.cursor.isAtEnd = false) (hc : w.cursor.advance = .ok c)
    (hs : (findings s).edits = (findings w.draft).edits ++ [e]) (he : e.isSource = true)
    (hplace : e.start = w.cursor.current.start) : EditsTokens w ⟨c, s⟩ := by
  have hsources : Workspace.sources ⟨c, s⟩ = w.sources ++ [e] := by
    rw [Workspace.sources, hs]
    exact Edit.sources_add he
  rw [EditsTokens, hsources]
  exact (Cursor.MarksPlaces.single hc (Cursor.Reaches.refl _) hplace).tokens hend

instance {σ : Type} [HasFindings σ] [LawfulFindings σ] : FindingsCourse (EditsTokens (σ := σ)) where
  parentheses := .editsTokens_onFindings follows_skipParentheses
  expression := .editsTokens_onFindings follows_expression

theorem literalValue_edits (part : LimitPart) : Follows EditsTokens (literalValue part) := by
  intro w v w' h
  obtain ⟨-, c, value, hint, hc, rfl⟩ := literalValue_ok h
  exact .here (isAtEnd_eq_false hint (by simp)) hc rfl (by cases part <;> rfl)
    (by cases part <;> rfl)

theorem countPlaceholder_edits : Follows EditsNothing countPlaceholder := by
  intro w n w' h
  obtain ⟨-, rfl⟩ := countPlaceholder_ok.1 h
  exact ⟨Cursor.Reaches.refl _, rfl⟩

theorem limitValue_edits (part : LimitPart) : Follows EditsTokens (limitValue part) := by
  refine (follows_skipKeyword _).bind fun _ => .ite (.pure _) ?_
  refine follows_isAt.bind fun _ => .ite (Follows.editsTokens ?_) ?_
  · exact countPlaceholder_edits.bind fun _ => follows_anyToken.bind fun _ => .pure _
  · exact (literalValue_edits part).bind fun _ => .pure _

instance : QueryCourse (EditsTokens (σ := Query)) where
  item rule := .editsTokens_onFindings (follows_commonItem rule)
  change hf _ _ _ _ _ := by
    refine EditsNothing.tokens ⟨Cursor.Reaches.refl _, ?_⟩
    exact congrArg (fun f : Findings => Edit.sources f.edits) hf

instance : SortingCourse (EditsTokens (σ := Query)) where
  keys _ _ := EditsNothing.tokens ⟨Cursor.Reaches.refl _, rfl⟩

instance : TailCourse (EditsTokens (σ := Query)) where
  setLimit _ := .editsTokens (follows_modifyFindings fun _ => rfl)
  top := .editsTokens_onFindings (follows_topValue limitValue_edits)
  limits comma := .editsTokens_onFindings (follows_limitAndOffset limitValue_edits comma)

theorem queryHead_edits : Follows EditsTokens (queryHead rule) := by
  have list : Follows EditsTokens (selectList rule) := by
    refine Follows.bind (.discard (.commaSeparated ?_)) fun _ => follows_current.bind fun t => ?_
    · refine (follows_selectItem rule).bind fun item => ?_
      exact .editsTokens (follows_modifyFindings fun _ => rfl)
    · exact .editsTokens (follows_modifyFindings fun _ => rfl)
  refine (Follows.editsTokens follows_anyToken).bind fun _ => follows_distinctClause.bind fun _ => ?_
  refine follows_grammar.bind fun g => (follows_skipAll _).bind fun _ => ?_
  exact follows_topClause.bind fun _ => list.bind fun _ => follows_refuseIf

/-! ## Tables -/

theorem tableFactor_edits (single : Bool) : Follows EditsPlaces (tableFactor rule single) := by
  intro w u w' h
  obtain ⟨t, _, ht, h⟩ := bind_ok.1 h
  obtain ⟨rfl, c, hc, rfl⟩ := tableToken_ok ht
  obtain ⟨a, w₁, ha, h⟩ := bind_ok.1 h
  have h₁ : EditsNothing ⟨c, w.draft⟩ w₁ := follows_alias? ha
  split at h
  · obtain ⟨_, _, hm, h⟩ := bind_ok.1 h
    obtain rfl := modifyDraft_ok.1 hm
    exact (EditsPlaces.left hc h₁ rfl rfl rfl).append (skipIndexHints_edits h).tokens
  · have h₂ : EditsNothing w w' :=
      ⟨(Cursor.Reaches.single hc).trans (Stepwise.trans h₁ (skipIndexHints_edits h)).reaches,
        (Stepwise.trans h₁ (skipIndexHints_edits h)).same⟩
    exact h₂.tokens.places

theorem bareTable_edits : Follows EditsPlaces bareTable := by
  intro w u w' h
  obtain ⟨t, _, ht, h⟩ := bind_ok.1 h
  obtain ⟨rfl, c, hc, rfl⟩ := tableToken_ok ht
  obtain rfl := modifyDraft_ok.1 h
  exact .left hc (Stepwise.refl _) rfl rfl rfl

theorem joinType_found {w w' : Workspace Findings} (h : joinType w = .ok true w') :
    w.cursor.isAtEnd = false := by
  obtain ⟨g, _, hg, h⟩ := bind_ok.1 h
  obtain ⟨-, rfl⟩ := grammar_ok.1 hg
  obtain ⟨b, _, hat, h⟩ := bind_ok.1 h
  obtain ⟨hb, rfl⟩ := isAtAny_ok.1 hat
  cases b with
  | false => cases h
  | true =>
    rw [Cursor.isAtAny_iff] at hb
    obtain ⟨k, -, hk⟩ := List.mem_map.1 hb
    simp [Cursor.isAtEnd, ← hk]

theorem joins_edits : Follows EditsTokens (joins rule) := by
  refine .repeatFrom fun _ => ?_
  intro w next w' h
  obtain ⟨b, w₁, hj, h⟩ := bind_ok.1 h
  have h₁ : EditsNothing w w₁ := follows_joinType hj
  cases b with
  | false =>
    obtain ⟨-, rfl⟩ := pure_ok.1 h
    exact h₁.tokens
  | true =>
    refine Cursor.MarksPlaces.tokens (h₁.places ?_) (joinType_found hj)
    have joined : Follows EditsPlaces (do
        if ← isAt (.symbol .leftParen) then
          failAt fun c => .unsupported c.current.start .joinedSubQuery
        tableFactor rule false
        joinCondition) := by
      refine Follows.editsBehind follows_isAt fun _ => .ite (.editsBehind (.failAt _) fun _ => ?_) ?_
      all_goals exact (tableFactor_edits false).editsBefore fun _ => follows_joinCondition
    exact (joined.editsBefore fun _ => .pure _) h

theorem tableReferences_edits (single : Bool) :
    Follows EditsPlaces (tableReferences rule single) := by
  refine .editsBehind follows_current fun t => ?_
  refine Follows.editsBefore (.discard (.editsSeparated (by simp) ?_)) fun _ => ?_
  · exact (tableFactor_edits single).editsBefore fun _ => joins_edits
  · exact follows_draft.bind fun _ => .ite (.throw _) (.pure _)

/-! ## Conditions -/

theorem recordCondition_edits (left : Expression) (op : ConditionOperator)
    (values : List Expression) : Follows EditsNothing (recordCondition rule left op values) := by
  intro w u w' h
  obtain ⟨hcursor, hedits⟩ := recordCondition_keeps h
  exact ⟨hcursor ▸ Cursor.Reaches.refl _, congrArg Edit.sources hedits⟩

theorem whereClause_edits : Follows EditsTokens (whereClause rule) :=
  follows_whereClause <| follows_comparison fun left =>
    follows_comparisonOf fun op values => (recordCondition_edits left op values).editsTokens

end SqlFront

import SqlFront.Proofs.Progress.Insert
import SqlFront.Reading.Control
import SqlFront.Reading.Definition

/-!
# UPDATE, DELETE, definitions, access control and administration

The readers of these statements move forward like those of a query. Outside of UPDATE and DELETE
the names are taken wherever they come, so that any token may be passed.
-/

set_option autoImplicit false

namespace SqlFront

open SqlFront.Parser SqlFront.Clause SqlFront.Reading

variable {N : Cursor → Prop} {T C : Prop} {P : Place → Cursor → Prop} {rule : ShardingRule}

/-! ## UPDATE and DELETE -/

theorem change_tables {words : Grammar → List Keyword} {rest : Parser Findings Unit}
    {w w' : Workspace Findings} {u : Unit} (hT : T) (hP : TablePlaces rule P)
    (hq : w.cursor.current.type ≠ .symbol .question)
    (hw : ∀ {c : Cursor} {v : Workspace Findings} {u : Unit}, w.cursor.advance = .ok c →
      skipAll (keywordTypes (words c.dialect.grammar)) ⟨c, w.draft⟩ = .ok u v →
      P .table v.cursor)
    (h : (do
      advance
      skipAll (keywordTypes (words (← grammar)))
      tableReferences rule true
      rest : Parser Findings Unit) w = .ok u w') :
    ∃ v, Progress (Names P) T C w v ∧ rest v = .ok u w' := by
  obtain ⟨_, _, ha, h⟩ := bind_ok.1 h
  obtain ⟨c, hc, rfl⟩ := advance_ok.1 ha
  obtain ⟨g, _, hg, h⟩ := bind_ok.1 h
  obtain ⟨rfl, rfl⟩ := grammar_ok.1 hg
  obtain ⟨_, w₁, hs, h⟩ := bind_ok.1 h
  obtain ⟨_, w₂, ht, h⟩ := bind_ok.1 h
  have hword : Progress (Names P) T C w ⟨c, w.draft⟩ :=
    .advance (by simpa [Cursor.isAt] using hq) hc
  have hmodifiers : Progress (Names P) T C w w₁ := hword.trans (follows_skipAll _ hs)
  exact ⟨w₂, hmodifiers.trans (tableReferences_progress hT hP (hw hc hs) ht).1, h⟩

theorem update_where {w w' : Workspace Findings} {u : Unit} (hT : T)
    (hP : TablePlaces rule P) (hq : w.cursor.current.type ≠ .symbol .question)
    (hw : ∀ {c : Cursor} {v : Workspace Findings} {u : Unit}, w.cursor.advance = .ok c →
      skipAll (keywordTypes c.dialect.grammar.updateModifiers) ⟨c, w.draft⟩ = .ok u v →
      P .table v.cursor)
    (h : update rule w = .ok u w') :
    ∃ v, Progress (Names P) T C w v ∧ whereClause rule v = .ok u w' := by
  obtain ⟨w₁, h₁, h⟩ := change_tables (C := C) hT hP hq hw h
  obtain ⟨_, w₂, hset, h⟩ := bind_ok.1 h
  exact ⟨w₂, h₁.trans (follows_updateAssignments hset), h⟩

theorem deletion_where {w w' : Workspace Findings} {u : Unit} (hT : T)
    (hP : TablePlaces rule P) (hq : w.cursor.current.type ≠ .symbol .question)
    (hw : ∀ {c : Cursor} {v : Workspace Findings} {u : Unit}, w.cursor.advance = .ok c →
      skipAll (keywordTypes c.dialect.grammar.deleteModifiers) ⟨c, w.draft⟩ = .ok u v →
      P .table v.cursor)
    (h : deletion rule w = .ok u w') :
    ∃ v, Progress (Names P) T C w v ∧ whereClause rule v = .ok u w' :=
  change_tables hT hP hq hw h

theorem progress_of_where {w w' : Workspace Findings} {u : Unit} (hC : C)
    (h : ∃ v, Progress (Names P) T C w v ∧ whereClause rule v = .ok u w') :
    Progress (Names P) T C w w' := by
  obtain ⟨v, hv, hwhere⟩ := h
  exact hv.trans (whereClause_progress hC rule hwhere)

/-! ## Where every token may be a name -/

section

variable (hN : ∀ c, N c)

include hN

theorem anyToken_progress : Follows (Progress N T C) (Parser.advance : Parser Findings Unit) := by
  intro w u w' h
  obtain ⟨c, hc, rfl⟩ := advance_ok.1 h
  exact .move (.name (hN _) hc)

theorem nameHere_progress : Follows (Progress N T C) (nameHere : Parser Findings String) :=
  follows_current.bind fun _ => (anyToken_progress hN).bind fun _ => .pure _

theorem skipUntil_progress (ts : List TokenType) :
    Follows (Progress N T C) (skipUntil ts : Parser Findings Unit) := by
  intro w u w' h
  refine skipUntil_induct (I := fun v => Progress N T C w v) ?_ (.refl w) h
  intro v c hv _ hc
  exact hv.trans (.move (.name (hN _) hc))

theorem anyTable_progress (hT : T) : Follows (Progress N T C) bareTable :=
  fun w => bareTable_progress hT (hN w.cursor)

/-! ## Definitions -/

omit hN in
theorem follows_skipExistence {R : Workspace Findings → Workspace Findings → Prop} [Stepwise R] :
    Follows R skipExistence := by
  refine (follows_skipKeyword _).bind fun _ => .ite ?_ (.pure _)
  exact (follows_skipKeyword _).bind fun _ => follows_expectKeyword _

omit hN in
theorem follows_indexHasTable {R : Workspace Findings → Workspace Findings → Prop} [Stepwise R]
    (kind : DefinitionKind) : Follows R (indexHasTable kind) := by
  cases kind with
  | createIndex => exact (follows_expectKeyword _).bind fun _ => .pure _
  | dropIndex => exact follows_skipKeyword _
  | _ => exact .pure _

omit hN in
theorem addEdit_progress {e : Edit} (he : e.tableName? = none) :
    Follows (Progress N T C) (modifyDraft fun f => f.addEdit e) := by
  intro w u w' h
  obtain rfl := modifyDraft_ok.1 h
  exact .addEdit he

theorem definedIndex_progress (hT : T) (kind : DefinitionKind) :
    Follows (Progress N T C) (definedIndex kind) := by
  refine follows_skipExistence.bind fun _ => follows_current.bind fun t => ?_
  refine (nameHere_progress hN).bind fun name => (follows_indexHasTable kind).bind fun _ => ?_
  refine .ite ((anyTable_progress hN hT).bind fun _ => ?_) (addEdit_progress rfl)
  intro w u w' h
  obtain rfl := modifyDraft_ok.1 h
  exact .addEdit rfl

theorem definition_progress (hT : T) (first : Keyword) :
    Follows (Progress N T C) (definition first) := by
  refine (skipUntil_progress hN _).bind fun _ => (follows_skipKeyword _).bind fun _ => .ite ?_ ?_
  · cases tableDefinition? first with
    | none => exact .failAt _
    | some kind =>
      refine Follows.bind ?_ fun _ => .pure kind
      refine follows_skipExistence.bind fun _ => ?_
      exact .discard (.commaSeparated (anyTable_progress hN hT))
  · refine follows_isAt.bind fun _ => .ite ?_ (.failAt _)
    cases indexDefinition? first with
    | none => exact .failAt _
    | some kind =>
      refine (anyToken_progress hN).bind fun _ => ?_
      exact (definedIndex_progress hN hT kind).bind fun _ => .pure kind

/-! ## Access control and administration -/

omit hN in
theorem privilegeTable_progress {w₀ w w' : Workspace Findings} {u : Unit} (hT : T)
    (hw : Progress N T C w₀ w) (h : privilegeTable rule w₀.cursor.current w = .ok u w') :
    Progress N T C w₀ w' := by
  simp only [privilegeTable] at h
  split at h
  · obtain rfl := modifyDraft_ok.1 h
    exact recordTable_progress hT hw
  · obtain ⟨-, rfl⟩ := pure_ok.1 h
    exact hw

theorem privilegeTarget_progress (hT : T) :
    Follows (Progress N T C) (privilegeTarget rule) := by
  refine (skipUntil_progress hN _).bind fun _ => (follows_skipKeyword _).bind fun _ => ?_
  refine .ite ((follows_skipKeyword _).bind fun _ => ?_) (.pure _)
  refine (follows_skipSymbol (by decide)).bind fun _ => .ite (.pure _) ?_
  refine Follows.atCurrent fun w => ?_
  intro u w' h
  obtain ⟨_, w₁, ha, h⟩ := bind_ok.1 h
  have h₁ : Progress N T C w w₁ := anyToken_progress hN ha
  obtain ⟨b, w₂, hb, h⟩ := bind_ok.1 h
  have h₂ : Progress N T C w w₂ := h₁.trans (follows_skipSymbol (by decide) hb)
  cases b with
  | false => exact privilegeTable_progress hT h₂ h
  | true =>
    refine h₂.trans ?_
    obtain ⟨b, w₃, hb, h⟩ := bind_ok.1 h
    have h₃ : Progress N T C w₂ w₃ := follows_skipSymbol (by decide) hb
    cases b with
    | true =>
      obtain ⟨-, rfl⟩ := pure_ok.1 h
      exact h₃
    | false =>
      obtain ⟨t, _, ht, h⟩ := bind_ok.1 h
      obtain ⟨rfl, rfl⟩ := current_ok.1 ht
      obtain ⟨_, w₄, ha, h⟩ := bind_ok.1 h
      exact h₃.trans (privilegeTable_progress hT (anyToken_progress hN ha) h)

theorem access_progress (hT : T) (kind : AccessKind) :
    Follows (Progress N T C) (access rule kind) := by
  have target : Follows (Progress N T C) (do
      privilegeTarget rule
      return (none : Option Principal)) :=
    (privilegeTarget_progress hN hT).bind fun _ => .pure none
  have principal : Follows (Progress N T C) principal? := by
    refine follows_current.bind fun t => ?_
    cases t.type.keyword?.bind principalOf? with
    | none => exact .pure none
    | some p => exact (anyToken_progress hN).bind fun _ => .pure _
  cases kind with
  | grant | revoke | deny => exact target
  | _ => exact principal

theorem shown_progress (hT : T) : Follows (Progress N T C) shown := by
  have source : Follows (Progress N T C) skipSource := follows_skipKeywords _
  have table : ∀ kind : AdministrationKind, Follows (Progress N T C) (do
      bareTable
      return kind) :=
    fun kind => (anyTable_progress hN hT).bind fun _ => .pure kind
  refine (follows_skipKeyword _).bind fun _ => (follows_skipKeyword _).bind fun _ => ?_
  refine .ite (.pure _) ((follows_skipKeyword _).bind fun _ => .ite ?_ ?_)
  · refine source.bind fun _ => .ite ?_ (.pure _)
    exact (nameHere_progress hN).bind fun _ => .pure _
  refine (follows_skipKeywords _).bind fun _ => .ite (source.bind fun _ => table _) ?_
  refine (follows_skipKeyword _).bind fun _ => .ite ?_ ?_
  · exact (follows_expectKeyword _).bind fun _ => table _
  exact (follows_skipKeywords _).bind fun _ => .ite (source.bind fun _ => table _) (.pure _)

theorem administration_progress (hT : T) (word : AdministrationWord) :
    Follows (Progress N T C) (administration word) := by
  refine (anyToken_progress hN).bind fun _ => ?_
  cases word with
  | use => exact (nameHere_progress hN).bind fun _ => .pure _
  | describe => exact (anyTable_progress hN hT).bind fun _ => .pure _
  | «show» => exact shown_progress hN hT

end

end SqlFront

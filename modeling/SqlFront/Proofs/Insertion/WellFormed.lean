import SqlFront.Proofs.Condition.WellFormed

/-!
# Well-formed insertions

An INSERT has one table, and all its columns are columns of that table. So the conditions of its
rows are well formed, and what it records for the generated key is a value of the key column of the
table. Both hold in front of the rows, and every row keeps them, also where it takes a column from
the list.
-/

set_option autoImplicit false

namespace SqlFront

open SqlFront.Parser SqlFront.Clause SqlFront.Reading

variable {rule : ShardingRule} {catalog : Catalog} {table : String} {α : Type}

/-! ## Definitions -/

structure GeneratedKey.WellFormed (rule : ShardingRule) (tables : Tables) (g : GeneratedKey) :
    Prop where
  table : tables.singleName? = some g.column.table
  key : ∃ key, rule.generatedKey? g.column.table = some key ∧ sameName key g.column.name = true
  value : g.value.IsPlain

def Statement.generatedKeys : Statement → List GeneratedKey
  | .insert s => s.generatedKeys
  | _ => []

structure InsertStatement.WellFormed (rule : ShardingRule) (table : String) (s : InsertStatement) :
    Prop where
  single : s.findings.tables.singleName? = some table
  columns : ∀ column ∈ s.columns, column.table = table
  findings : s.findings.WellFormed rule
  keys : ∀ g ∈ s.generatedKeys, g.WellFormed rule s.findings.tables

def KeepsInsert (rule : ShardingRule) (table : String) (w w' : Workspace InsertStatement) : Prop :=
  w.draft.WellFormed rule table → w'.draft.WellFormed rule table

/-! ## Changes -/

variable {s t : InsertStatement}

/-- Taking columns away and changing edits keeps an insertion well formed. -/
theorem InsertStatement.WellFormed.congr (h : s.WellFormed rule table)
    (hcolumns : ∀ column ∈ t.columns, column ∈ s.columns)
    (htables : t.findings.tables = s.findings.tables)
    (hconditions : t.findings.conditions = s.findings.conditions)
    (hkeys : t.generatedKeys = s.generatedKeys) : t.WellFormed rule table where
  single := htables ▸ h.single
  columns column hc := h.columns column (hcolumns column hc)
  findings := h.findings.congr htables hconditions
  keys := by
    rw [hkeys, htables]
    exact h.keys

theorem InsertStatement.WellFormed.withColumn (h : s.WellFormed rule table) (name : String) :
    InsertStatement.WellFormed rule table { s with columns := s.columns ++ [⟨name, table⟩] } := by
  refine { h with columns := fun column hc => ?_ }
  rcases List.mem_append.1 hc with hc | hc
  · exact h.columns column hc
  · rw [List.mem_singleton.1 hc]

theorem InsertStatement.WellFormed.addColumn (h : s.WellFormed rule table) (key? : Option String)
    (name : String) : (addColumn key? ⟨name, table⟩ s).WellFormed rule table :=
  (h.withColumn name).congr (fun _ => id) rfl rfl rfl

theorem InsertStatement.WellFormed.catalogColumns (h : s.WellFormed rule table) (start : ℕ) :
    (catalogColumns rule catalog table start s).WellFormed rule table := by
  have hall : ∀ (names : List String) {s : InsertStatement}, s.WellFormed rule table →
      (names.foldl (fun s name => Clause.addColumn (rule.generatedKey? table) ⟨name, table⟩ s)
        s).WellFormed rule table := by
    intro names
    induction names with
    | nil => exact id
    | cons name names ih => exact fun h => ih (h.addColumn _ name)
  exact (hall _ h).congr (fun _ => id) rfl rfl rfl

theorem InsertStatement.WellFormed.shortenColumns (h : s.WellFormed rule table)
    (key? : Option String) (n : ℕ) : (shortenColumns key? n s).WellFormed rule table := by
  unfold Clause.shortenColumns
  split
  · split
    · unfold removeKeyColumn
      simp only
      split
      · exact h
      · exact h.congr (fun _ hc => (List.mem_filter.1 hc).1) rfl rfl rfl
    · exact h
  · exact h

/-- A row adds conditions on columns of the table. -/
theorem InsertStatement.WellFormed.addRow {form : RowForm} {source : String} {before : ℕ}
    {conditions : List Condition} (h : s.WellFormed rule table)
    (hconditions : ∀ x ∈ conditions, x.WellFormed rule s.findings.tables) :
    (addRow form source before conditions s).WellFormed rule table := by
  refine { h with findings := fun x hx => ?_ }
  rcases Conditions.mem_push.1 hx with hx | hx
  · exact h.findings x hx
  · exact hconditions x hx

theorem valueCondition?_wellFormed {tables : Tables} {column : Column} {value : Expression}
    {x : Condition} (htable : tables.singleName? = some column.table)
    (h : valueCondition? rule column value = some x) : x.WellFormed rule tables := by
  unfold valueCondition? at h
  split at h
  · next hrecord =>
    rw [Bool.and_eq_true] at hrecord
    obtain rfl := Option.some.inj h
    exact {
      column := hrecord.2
      table := Tables.containsName_of_singleName? htable
      values := by simpa [Expression.isPlain_iff] using hrecord.1
      count := rfl }
  · cases h

/-! ## Readers -/

theorem KeepsInsert.of_found {N : Cursor → Prop} {w : Workspace InsertStatement} {c : Cursor}
    {f : Findings} (h : Progress N False False w.found ⟨c, f⟩) :
    KeepsInsert rule table w ⟨c, setFindings w.draft f⟩ :=
  fun hw => hw.congr (fun _ => id) h.tables_eq h.conditions_eq rfl

theorem Follows.keepsInsert {p : Parser Findings α}
    (hp : Follows (Progress (fun _ => False) False False) p) :
    Follows (KeepsInsert rule table) (Parser.onFindings p) := by
  intro w a w' h
  obtain ⟨c, f, hf, rfl⟩ := onFindings_ok.1 h
  exact .of_found (hp hf)

instance : FindingsCourse (KeepsInsert rule table) where
  refl _ := id
  trans h₁ h₂ := h₂ ∘ h₁
  advance _ _ := id
  parentheses := .keepsInsert follows_skipParentheses
  expression := .keepsInsert follows_expression

theorem follows_keepsInsert {g : InsertStatement → InsertStatement}
    (hg : ∀ s, s.WellFormed rule table → (g s).WellFormed rule table) :
    Follows (KeepsInsert rule table) (modifyDraft g) := by
  intro w u w' h
  obtain rfl := modifyDraft_ok.1 h
  exact hg w.draft

theorem insertTable_ok {w w' : Workspace InsertStatement} {name : String}
    (h : insertTable w = .ok name w') :
    w.draft.findings.tables.singleName? = some name ∧ w' = w := by
  obtain ⟨s, _, hs, h⟩ := bind_ok.1 h
  obtain ⟨rfl, rfl⟩ := draft_ok.1 hs
  cases hname : w.draft.findings.tables.singleName? with
  | some n =>
    rw [hname] at h
    obtain ⟨rfl, rfl⟩ := pure_ok.1 h
    exact ⟨rfl, rfl⟩
  | none =>
    rw [hname] at h
    exact (throw_ok.1 h).elim

theorem follows_insertTable_bind {f : String → Parser InsertStatement α}
    (hf : Follows (KeepsInsert rule table) (f table)) :
    Follows (KeepsInsert rule table) (insertTable >>= f) := by
  intro w a w' h hw
  obtain ⟨name, _, hname, h⟩ := bind_ok.1 h
  obtain ⟨hsingle, rfl⟩ := insertTable_ok hname
  obtain rfl := Option.some.inj (hw.single.symm.trans hsingle)
  exact hf h hw

theorem writtenColumns_wellFormed :
    Follows (KeepsInsert rule table) (writtenColumns rule table) := by
  refine Follows.bind (.discard (.commaSeparated ?_)) fun _ => follows_current.bind fun t => ?_
  · exact follows_columnName.bind fun x => follows_keepsInsert fun s h => h.addColumn _ x.1
  · refine Follows.bind (follows_keepsInsert fun s h => ?_) fun _ => ?_
    · exact h.congr (fun _ => id) rfl rfl rfl
    · exact follows_expectSymbol (by decide)

theorem columnList_wellFormed : Follows (KeepsInsert rule table) (columnList rule catalog) := by
  refine follows_insertTable_bind ((follows_skipSymbol (by decide)).bind fun _ => ?_)
  refine .ite writtenColumns_wellFormed (.ite (follows_current.bind fun t => ?_) (.pure _))
  exact follows_keepsInsert fun s h => h.catalogColumns t.start

/-! ## Rows -/

theorem recordGeneratedKey_wellFormed {column : Column} (hcolumn : column.table = table)
    (value : Expression) (place : ℕ) : Follows (KeepsInsert rule table)
      (recordGeneratedKey (rule.generatedKey? table) column value place) := by
  obtain ⟨name, _⟩ := column
  subst hcolumn
  unfold recordGeneratedKey
  split
  · next hkey =>
    split
    · next hvalue =>
      refine follows_keepsInsert fun s h => { h with keys := fun g hg => ?_ }
      rcases List.mem_append.1 hg with hg | hg
      · exact h.keys g hg
      · rw [List.mem_singleton.1 hg]
        exact {
          table := h.single
          key := (Option.any_eq_true _ _).1 hkey
          value := Expression.isPlain_iff.2 hvalue }
    · exact .throw _
  · exact .pure _

theorem recordValues_wellFormed {place : RowPlace} {pairs : List (Column × Expression)}
    (hpairs : ∀ p ∈ pairs, p.1.table = table) :
    Follows (KeepsInsert rule table) (recordValues rule table place pairs) := by
  have keys : ∀ {ps : List (Column × Expression)}, (∀ p ∈ ps, p.1.table = table) →
      Follows (KeepsInsert rule table) (ps.forM fun p =>
        recordGeneratedKey (rule.generatedKey? table) p.1 p.2 place.start) := by
    intro ps
    induction ps with
    | nil => exact fun _ => .pure _
    | cons p ps ih =>
      intro hps
      refine (recordGeneratedKey_wellFormed (hps p List.mem_cons_self) _ _).bind fun _ => ?_
      exact ih fun q hq => hps q (List.mem_cons_of_mem _ hq)
  refine (keys hpairs).bind fun _ => follows_cursor.bind fun c => follows_keepsInsert fun s h => ?_
  refine h.addRow fun x hx => ?_
  obtain ⟨p, hp, hx⟩ := List.mem_filterMap.1 hx
  exact valueCondition?_wellFormed (h.single.trans (congrArg some (hpairs p hp).symm)) hx

theorem recordRow_wellFormed {place : RowPlace} {values : List Expression} :
    Follows (KeepsInsert rule table) (recordRow rule table place values) := by
  refine Follows.bind (follows_keepsInsert fun s h => h.shortenColumns _ _) fun _ => ?_
  intro w u w' h hw
  obtain ⟨s, _, hs, h⟩ := bind_ok.1 h
  obtain ⟨rfl, rfl⟩ := draft_ok.1 hs
  split at h
  · exact (throw_ok.1 h).elim
  · exact recordValues_wellFormed (fun p hp => hw.columns _ (List.of_mem_zip hp).1) h hw

theorem valuesRow_wellFormed : Follows (KeepsInsert rule table) (valuesRow rule table) := by
  refine follows_current.bind fun t => Follows.bind ?_ fun _ => follows_draft.bind fun s => ?_
  · intro w u w' h
    obtain ⟨c, f, hf, rfl⟩ := onFindings_ok.1 h
    cases modifyDraft_ok.1 hf
    exact .of_found (N := fun _ => False) (.addEdit rfl)
  · refine (follows_expectSymbol (by decide)).bind fun _ => ?_
    refine (Follows.commaSeparated FindingsCourse.expression).bind fun values => ?_
    refine (follows_expectSymbol (by decide)).bind fun _ => follows_cursor.bind fun c => ?_
    exact recordRow_wellFormed

theorem valuesClause_wellFormed : Follows (KeepsInsert rule table) (valuesClause rule) := by
  refine follows_grammar.bind fun g => (follows_skipKeywords _).bind fun _ => .ite ?_ (.pure _)
  exact follows_insertTable_bind (.discard (.commaSeparated valuesRow_wellFormed))

theorem insertAssignment_wellFormed {w w' : Workspace InsertStatement} {x? : Option Condition}
    (h : insertAssignment rule table w = .ok x? w') (hw : w.draft.WellFormed rule table) :
    w'.draft.WellFormed rule table ∧
      ∀ x, x? = some x → ∀ ts : Tables, ts.singleName? = some table → x.WellFormed rule ts := by
  obtain ⟨name, place, value, w₁, w₂, w₃, w₄, hn, hs, hv, hk, hm, rfl⟩ := insertAssignment_ok h
  have h₁ : KeepsInsert rule table w w₁ := follows_columnName hn
  have h₂ : KeepsInsert rule table w₁ w₂ := Follows.keepsInsert follows_assignmentSign hs
  have h₃ : KeepsInsert rule table w₂ w₃ := FindingsCourse.expression hv
  have h₄ : KeepsInsert rule table w₃ w₄ :=
    @recordGeneratedKey_wellFormed _ _ ⟨name, table⟩ rfl value place _ _ _ hk
  obtain rfl := modifyDraft_ok.1 hm
  refine ⟨?_, fun x hx ts hts => valueCondition?_wellFormed hts hx⟩
  exact (h₄ (h₃ (h₂ (h₁ hw)))).withColumn name

theorem insertAssignments_wellFormed :
    Follows (KeepsInsert rule table) (insertAssignments rule) := by
  refine follows_grammar.bind fun g => .ite ?_ (.pure _)
  refine (follows_skipKeyword _).bind fun _ => .ite ?_ (.pure _)
  refine Follows.bind (follows_keepsInsert fun s h => ?_) fun _ => ?_
  · exact h.congr (fun _ hc => by simp [dropColumns] at hc) rfl rfl rfl
  refine follows_insertTable_bind (follows_current.bind fun t => follows_draft.bind fun s => ?_)
  intro w u w' h hw
  obtain ⟨conditions, w₁, hr, h⟩ := bind_ok.1 h
  obtain ⟨c, _, hc, h⟩ := bind_ok.1 h
  obtain ⟨-, rfl⟩ := cursor_ok.1 hc
  obtain rfl := modifyDraft_ok.1 h
  have row : w₁.draft.WellFormed rule table ∧ ∀ x ∈ conditions.filterMap id,
      ∀ ts : Tables, ts.singleName? = some table → x.WellFormed rule ts := by
    refine (separated_induct
      (I := fun xs v => v.draft.WellFormed rule table ∧ ∀ x ∈ xs.filterMap id,
        ∀ ts : Tables, ts.singleName? = some table → x.WellFormed rule ts)
      (M := fun xs v => v.draft.WellFormed rule table ∧ ∀ x ∈ xs.filterMap id,
        ∀ ts : Tables, ts.singleName? = some table → x.WellFormed rule ts)
      ?_ ?_ ⟨hw, fun x hx => by simp at hx⟩ hr).1
    · rintro before x? v v' ⟨hv, hbefore⟩ hx
      obtain ⟨hv', hnew⟩ := insertAssignment_wellFormed hx hv
      refine ⟨hv', fun x hx => ?_⟩
      rw [List.filterMap_append, List.mem_append] at hx
      rcases hx with hx | hx
      · exact hbefore x hx
      · exact hnew x (by simpa [eq_comm] using hx)
    · exact fun h _ _ => h
  exact row.1.addRow fun x hx => row.2 x hx _ row.1.single

/-! ## The statement -/

theorem completeKey_wellFormed : Follows (KeepsInsert rule table) (completeKey rule) := by
  refine follows_insertTable_bind ?_
  cases rule.generatedKey? table with
  | none => exact .pure _
  | some key =>
    refine follows_keepsInsert fun s h => ?_
    split
    · exact h.congr (fun _ => id) rfl rfl rfl
    · exact h

structure Targeting (w w' : Workspace InsertStatement) : Prop where
  draft : w'.draft = setFindings w.draft w'.draft.findings
  conditions : w'.draft.findings.conditions = w.draft.findings.conditions

instance : Stepwise Targeting where
  refl _ := ⟨rfl, rfl⟩
  trans h₁ h₂ := ⟨h₂.draft.trans (by rw [h₁.draft]; rfl), h₂.conditions.trans h₁.conditions⟩
  advance _ _ := ⟨rfl, rfl⟩

theorem Follows.targeting {p : Parser Findings α}
    (hp : Follows (Progress (Names fun _ _ => True) True False) p) :
    Follows Targeting (Parser.onFindings p) := by
  intro w a w' h
  obtain ⟨c, f, hf, rfl⟩ := onFindings_ok.1 h
  exact ⟨rfl, (hp hf).conditions_eq⟩

theorem intoClause_targeting : Follows Targeting intoClause := by
  refine follows_grammar.bind fun g => follows_refuseIf.bind fun _ => Follows.bind ?_ fun _ => ?_
  · intro w u w' h
    refine skipUntil_induct (I := fun v => Targeting w v) (fun hv _ _ => ?_) (Stepwise.refl w) h
    exact ⟨hv.draft, hv.conditions⟩
  · refine (follows_expectKeyword _).bind fun _ => Follows.bind ?_ fun _ => ?_
    · exact .targeting fun w => bareTable_progress trivial (names_all w.cursor)
    · refine .whileM (follows_skipKeywords _) (Follows.bind ?_ fun _ => .pure _)
      exact .targeting follows_skipParentheses

/-- Behind its target an insertion is well formed, and it stays so. -/
theorem insertion_wellFormed {c c' : Cursor} {u : Unit}
    (h : insertion rule catalog ⟨c, {}⟩ = .ok u ⟨c', s⟩) : ∃ table, s.WellFormed rule table := by
  obtain ⟨_, _, ha, h⟩ := bind_ok.1 h
  obtain ⟨c₁, -, rfl⟩ := advance_ok.1 ha
  obtain ⟨_, w, hi, hrest⟩ := bind_ok.1 h
  obtain ⟨hdraft, hconditions⟩ := intoClause_targeting hi
  obtain ⟨_, _, hl, -⟩ := bind_ok.1 hrest
  obtain ⟨table, _, hname, -⟩ := bind_ok.1 hl
  have hsingle := (insertTable_ok hname).1
  have hw : w.draft.WellFormed rule table := {
    single := hsingle
    columns := by
      rw [hdraft]
      exact fun _ hc => by simp [setFindings] at hc
    findings := Findings.wellFormed_of_empty hconditions
    keys := by
      rw [hdraft]
      exact fun _ hg => by simp [setFindings] at hg }
  refine ⟨table, (?_ : Follows (KeepsInsert rule table) _) hrest hw⟩
  refine columnList_wellFormed.bind fun _ => follows_refuseIf.bind fun _ => ?_
  refine valuesClause_wellFormed.bind fun _ => insertAssignments_wellFormed.bind fun _ => ?_
  exact follows_duplicateKeyClause.bind fun _ => completeKey_wellFormed

theorem mapFindings_edits {s : Statement} {es : Findings → List Edit} :
    (s.mapFindings fun f => { f with edits := es f }).findings.tables = s.findings.tables ∧
      (s.mapFindings fun f => { f with edits := es f }).findings.conditions =
        s.findings.conditions ∧
      (s.mapFindings fun f => { f with edits := es f }).generatedKeys = s.generatedKeys := by
  cases s <;> exact ⟨rfl, rfl, rfl⟩

/-- Every condition of an accepted text is on a sharding column of one of its tables, with as many
literals and placeholders as its operator takes, and every value that it has for a generated key is a
literal or a placeholder for the key column of its table. -/
theorem recorded_well_formed {d : Dialect} {sql : String} {s : Statement}
    (h : parse d rule catalog sql = .ok s) :
    (∀ x ∈ s.findings.conditions.toList, x.WellFormed rule s.findings.tables) ∧
      ∀ g ∈ s.generatedKeys, g.WellFormed rule s.findings.tables := by
  obtain ⟨s₀, c', htext, rfl⟩ := parse_ok.1 h
  obtain ⟨c, -, hr⟩ := text_reads htext
  obtain ⟨htables, hconditions, hkeys⟩ := @mapFindings_edits s₀ fun f => Edit.sorted f.edits
  rw [htables, hconditions, hkeys]
  cases s₀ with
  | insert i =>
    cases hr with
    | insert _ hi =>
      obtain ⟨table, hi⟩ := insertion_wellFormed hi
      exact ⟨hi.findings, hi.keys⟩
  | _ => exact ⟨hr.wellFormed fun _ hi => (by cases hi), fun _ hg => (by cases hg)⟩

/-- The key of the first row is recorded before the second row takes its column from the list. -/
theorem recorded_well_formed_shortened : ∃ s,
    parse .mysql ⟨[("t_order", ⟨["user_id"], some "order_id"⟩)], none⟩
      ⟨[("t_order", ["order_id", "user_id"])]⟩ "INSERT INTO t_order VALUES (1, 2), (?)" = .ok s ∧
    (s.findings.conditions.toList.length, s.generatedKeys.length) = (2, 1) ∧
    (∀ x ∈ s.findings.conditions.toList,
      x.WellFormed ⟨[("t_order", ⟨["user_id"], some "order_id"⟩)], none⟩ s.findings.tables) ∧
    ∀ g ∈ s.generatedKeys,
      g.WellFormed ⟨[("t_order", ⟨["user_id"], some "order_id"⟩)], none⟩ s.findings.tables := by
  obtain ⟨s, hs, hlengths⟩ := parse_of_view .mysql
    ⟨[("t_order", ⟨["user_id"], some "order_id"⟩)], none⟩ ⟨[("t_order", ["order_id", "user_id"])]⟩
    "INSERT INTO t_order VALUES (1, 2), (?)"
    (fun s => (s.findings.conditions.toList.length, s.generatedKeys.length)) (2, 1)
    (by decide +kernel)
  exact ⟨s, hs, hlengths, recorded_well_formed hs⟩

end SqlFront

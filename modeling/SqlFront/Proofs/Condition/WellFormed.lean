import SqlFront.Proofs.Condition.Origin
import SqlFront.Proofs.Table.Single

/-!
# Well-formed conditions

A condition is on a sharding column of a table of the statement, and has as many literals and
placeholders as its operator takes. Reading adds no other condition, and the tables that it finds
stay: what a query knows of its tables when it comes to WHERE, it knows to the end, and merging
queries only adds tables.
-/

set_option autoImplicit false

namespace SqlFront

open SqlFront.Parser SqlFront.Clause SqlFront.Reading

/-! ## Definitions -/

inductive Expression.IsPlain : Expression → Prop
  | number (value : Number) : IsPlain (.number value)
  | text (value : String) : IsPlain (.text value)
  | placeholder (index : ℕ) : IsPlain (.placeholder index)

theorem Expression.isPlain_iff {e : Expression} : e.IsPlain ↔ e.isShardingValue = true := by
  constructor
  · rintro (_ | _ | _) <;> rfl
  · intro h
    cases e with
    | number value => exact .number value
    | text value => exact .text value
    | placeholder index => exact .placeholder index
    | identifier | property | raw => cases h

def ConditionOperator.Takes : ConditionOperator → ℕ → Prop
  | .equal, n => n = 1
  | .between, n => n = 2
  | .oneOf, n => 1 ≤ n

structure Condition.WellFormed (rule : ShardingRule) (tables : Tables) (x : Condition) : Prop where
  column : rule.isShardingColumn x.column = true
  table : tables.containsName x.column.table = true
  values : ∀ value ∈ x.values, value.IsPlain
  count : x.operator.Takes x.values.length

def Findings.WellFormed (rule : ShardingRule) (f : Findings) : Prop :=
  ∀ x ∈ f.conditions.toList, x.WellFormed rule f.tables

variable {rule : ShardingRule} {catalog : Catalog} {f g : Findings} {ts us : Tables}

/-! ## Tables -/

namespace Tables

theorem containsName_of_mem {t : Table} (h : t ∈ ts.entries) : ts.containsName t.name = true :=
  List.any_eq_true.2 ⟨t, h, sameName_refl t.name⟩

theorem containsName_of_find? {name : String} {t : Table} (h : ts.find? name = some t) :
    ts.containsName t.name = true := by
  rcases Option.or_eq_some_iff.1 h with h | ⟨-, h⟩
  · exact containsName_of_mem (List.mem_of_find?_eq_some h)
  · exact containsName_of_mem (List.mem_of_find?_eq_some h)

theorem containsName_of_singleName? {name : String} (h : ts.singleName? = some name) :
    ts.containsName name = true := by
  unfold singleName? at h
  split at h
  · obtain ⟨t, ht, rfl⟩ := Option.map_eq_some_iff.1 h
    exact containsName_of_mem (List.mem_of_head? ht)
  · cases h

theorem containsName_extend {name : String} :
    (ts.extend us).containsName name = true ↔
      ts.containsName name = true ∨ us.containsName name = true := by
  obtain ⟨more⟩ := us
  unfold extend
  induction more generalizing ts with
  | nil => simp [containsName]
  | cons t more ih =>
    rw [List.foldl_cons, ih, containsName_add, or_assoc]
    simp [containsName]

end Tables

/-! ## Findings that are put together -/

theorem Condition.WellFormed.mono {x : Condition} (h : x.WellFormed rule ts)
    (htables : ∀ name, ts.containsName name = true → us.containsName name = true) :
    x.WellFormed rule us :=
  { h with table := htables _ h.table }

theorem Findings.WellFormed.congr (h : f.WellFormed rule) (htables : g.tables = f.tables)
    (hconditions : g.conditions = f.conditions) : g.WellFormed rule := by
  unfold Findings.WellFormed
  rw [htables, hconditions]
  exact h

theorem Findings.wellFormed_of_empty (h : f.conditions = .empty) : f.WellFormed rule := by
  intro x hx
  rw [h] at hx
  cases hx

/-- A query that absorbs another one has the tables of both. -/
theorem Findings.WellFormed.absorb {outer inner : Findings} (houter : outer.WellFormed rule)
    (hinner : inner.WellFormed rule) : (outer.absorb inner).WellFormed rule := by
  intro x hx
  simp only [Findings.absorb, Conditions.merge, Conditions.toList, List.flatMap_append,
    List.mem_append] at hx
  rcases hx with hx | hx
  · exact (hinner x hx).mono fun _ h => Tables.containsName_extend.2 (Or.inl h)
  · exact (houter x hx).mono fun _ h => Tables.containsName_extend.2 (Or.inr h)

theorem Query.mergeChain_wellFormed {q : Query} {inner : List Query}
    (h : ∀ r ∈ q :: inner, r.findings.WellFormed rule) :
    (q.mergeChain inner).findings.WellFormed rule := by
  induction inner generalizing q with
  | nil => exact h q List.mem_cons_self
  | cons r inner ih =>
    exact (h q List.mem_cons_self).absorb (ih fun x hx => h x (List.mem_cons_of_mem _ hx))

/-! ## Readers -/

def KeepsWellFormed (rule : ShardingRule) (w w' : Workspace Findings) : Prop :=
  w.draft.WellFormed rule → w'.draft.WellFormed rule

theorem Progress.keepsWellFormed {N : Cursor → Prop} {w w' : Workspace Findings}
    (h : Progress N False False w w') : KeepsWellFormed rule w w' :=
  fun hw => hw.congr h.tables_eq h.conditions_eq

instance : Expressive (KeepsWellFormed rule) where
  refl _ := id
  trans h₁ h₂ := h₂ ∘ h₁
  advance _ _ := id
  placeholder _ _ := id
  member _ _ _ := id
  owner _ _ _ _ h := h

theorem findColumn?_containsName {e : Expression} {column : Column}
    (h : findColumn? f e = some column) : f.tables.containsName column.table = true := by
  cases e with
  | property owner name =>
    obtain ⟨t, ht, rfl⟩ := Option.map_eq_some_iff.1 h
    exact Tables.containsName_of_find? ht
  | identifier name =>
    obtain ⟨t, ht, rfl⟩ := Option.map_eq_some_iff.1 h
    exact Tables.containsName_of_singleName? ht
  | number | text | placeholder | raw => cases h

theorem recordCondition_wellFormed {left : Expression} {op : ConditionOperator}
    {values : List Expression} (hcount : op.Takes values.length) :
    Follows (KeepsWellFormed rule) (recordCondition rule left op values) := by
  intro w u w' h hw
  obtain rfl := recordCondition_ok.1 h
  split
  · next column hcolumn =>
    split
    · next hrecord =>
      rw [Bool.and_eq_true, List.all_eq_true] at hrecord
      intro x hx
      rcases Conditions.mem_add.1 hx with hx | rfl
      · exact hw x hx
      · exact {
          column := hrecord.2
          table := findColumn?_containsName hcolumn
          values := fun value hv => Expression.isPlain_iff.2 (hrecord.1 value hv)
          count := hcount }
    · exact hw
  · exact hw

theorem inValues_length {w w' : Workspace Findings} {values : List Expression}
    (h : inValues w = .ok (some values) w') : 1 ≤ values.length := by
  obtain ⟨b, w₁, -, h⟩ := bind_ok.1 h
  cases b with
  | true =>
    obtain ⟨_, _, -, h⟩ := bind_ok.1 h
    cases h
  | false =>
    obtain ⟨_, w₂, -, h⟩ := bind_ok.1 h
    obtain ⟨xs, w₃, hxs, h⟩ := bind_ok.1 h
    obtain ⟨_, w₄, -, h⟩ := bind_ok.1 h
    cases h
    cases separated_run hxs <;> simp

theorem betweenValues_length {w w' : Workspace Findings} {values : List Expression}
    (h : betweenValues w = .ok values w') : values.length = 2 := by
  obtain ⟨low, w₁, -, h⟩ := bind_ok.1 h
  obtain ⟨_, w₂, -, h⟩ := bind_ok.1 h
  obtain ⟨high, w₃, -, h⟩ := bind_ok.1 h
  obtain ⟨rfl, -⟩ := pure_ok.1 h
  rfl

theorem comparisonOf_wellFormed (left : Expression) :
    Follows (KeepsWellFormed rule) (comparisonOf rule left) := by
  refine (follows_skipSymbol (by decide)).bind fun _ => .ite ?_ ?_
  · exact follows_expression.bind fun right => recordCondition_wellFormed rfl
  refine (follows_skipKeyword _).bind fun _ => .ite ?_ ?_
  · intro w u w' h
    obtain ⟨values?, w₁, hv, h⟩ := bind_ok.1 h
    have hw₁ : KeepsWellFormed rule w w₁ := follows_inValues hv
    cases values? with
    | some values =>
      have hcount : ConditionOperator.oneOf.Takes values.length := inValues_length hv
      exact recordCondition_wellFormed hcount h ∘ hw₁
    | none => exact Follows.pure (R := KeepsWellFormed rule) () h ∘ hw₁
  refine (follows_skipKeyword _).bind fun _ => .ite ?_ follows_unrecordedComparison
  intro w u w' h
  obtain ⟨values, w₁, hv, h⟩ := bind_ok.1 h
  have hw₁ : KeepsWellFormed rule w w₁ := follows_betweenValues hv
  have hcount : ConditionOperator.between.Takes values.length := betweenValues_length hv
  exact recordCondition_wellFormed hcount h ∘ hw₁

theorem whereClause_wellFormed : Follows (KeepsWellFormed rule) (whereClause rule) :=
  follows_whereClause (follows_comparison comparisonOf_wellFormed)

/-! ## Queries -/

theorem queryLevel_wellFormed {n : ℕ} {w w' : Workspace Query} {inner : List Query}
    (hempty : w.draft.findings.conditions = .empty)
    (hq : w.cursor.current.type ≠ .symbol .question)
    (h : queryLevel rule n w = .ok inner w') :
    ∀ q ∈ w'.draft :: inner, q.findings.WellFormed rule := by
  induction n generalizing w w' inner with
  | zero => exact (throw_ok.1 h).elim
  | succ n ih =>
    obtain ⟨w₁, w₂, w₃, h₁, h₂, h₃, h₄⟩ := queryLevel_succ_ok h
    have hhead : QueryProgress (Names fun _ _ => True) False False w w₁ :=
      queryHead_progress hq h₁
    have hempty₁ : w₁.draft.findings.conditions = .empty :=
      hhead.found.conditions_eq.trans hempty
    obtain ⟨hempty₂, hinner⟩ : w₂.draft.findings.conditions = .empty ∧
        ∀ q ∈ inner, q.findings.WellFormed rule := by
      cases fromClause_run h₂ with
      | absent => exact ⟨hempty₁, fun _ hq => by simp at hq⟩
      | tables hat hc _ ht =>
        have hp := (onFindings_progress (C := False) ht fun _ hr =>
          tableReferences_progress trivial (@tablePlaces_all rule) trivial hr).1
        exact ⟨hp.found.conditions_eq.trans hempty₁, fun _ hq => by simp at hq⟩
      | @query c c' w₅ _ _ hat hc hopen hc' hn hj =>
        obtain ⟨q, chain, c₁, c₂, hs, -, -, rfl, rfl⟩ := nestedQuery_ok hn
        have hp := behindNestedQuery_progress (C := False) trivial (@tablePlaces_all rule)
          (fun _ => trivial) hj
        exact ⟨hp.found.conditions_eq.trans hempty₁,
          ih rfl (not_question_of_atSubQuery hopen hc') hs⟩
    obtain ⟨c, f, hwhere, rfl⟩ := onFindings_ok.1 h₃
    have hf : f.WellFormed rule :=
      whereClause_wellFormed hwhere (Findings.wellFormed_of_empty hempty₂)
    have htail : QueryProgress (fun _ => False) False False _ w' := queryTail_progress h₄
    intro q hq
    rcases List.mem_cons.1 hq with rfl | hq
    · exact htail.found.keepsWellFormed hf
    · exact hinner q hq

/-! ## Statements other than INSERT -/

theorem Reads.wellFormed {c c' : Cursor} {s : Statement} (h : Reads rule catalog c c' s)
    (hinsert : ∀ i, s ≠ .insert i) : s.findings.WellFormed rule := by
  -- A reading without a WHERE clause has no conditions.
  have none : ∀ {w w' : Workspace Findings}, w.draft.conditions = .empty →
      Progress (Names fun _ _ => True) True False w w' → w'.draft.WellFormed rule :=
    fun hw hp => Findings.wellFormed_of_empty (hp.conditions_eq.trans hw)
  cases h with
  | @select n q inner hat hr =>
    have hlevels := queryLevel_wellFormed rfl (not_question_of_keyword hat) hr
    have hextends := Query.derive_extends catalog (q.mergeChain inner)
    exact (Query.mergeChain_wellFormed hlevels).congr hextends.tables hextends.conditions
  | insert => exact (hinsert _ rfl).elim
  | update hat hr =>
    obtain ⟨v, hv, hwhere⟩ := update_where (T := True) (C := False) trivial
      (@tablePlaces_all rule) (not_question_of_keyword hat) (fun _ _ => trivial) hr
    exact whereClause_wellFormed hwhere (none rfl hv)
  | delete hat hr =>
    obtain ⟨v, hv, hwhere⟩ := deletion_where (T := True) (C := False) trivial
      (@tablePlaces_all rule) (not_question_of_keyword hat) (fun _ _ => trivial) hr
    exact whereClause_wellFormed hwhere (none rfl hv)
  | definition hc hr => exact none rfl (definition_progress names_all trivial _ hr)
  | access hc hr => exact none rfl (access_progress names_all trivial _ hr)
  | transaction => exact Findings.wellFormed_of_empty rfl
  | administration hr => exact none rfl (administration_progress names_all trivial _ hr)

end SqlFront

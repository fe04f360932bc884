import SqlFront.Proofs.Merge
import SqlFront.Proofs.Progress.Change
import SqlFront.Proofs.Progress.Statement

/-!
# Where conditions come from

Outside of INSERT, the conditions of a statement are those that the WHERE clauses on the way have
recorded. What holds of each of them holds of all conditions of the statement.
-/

set_option autoImplicit false

namespace SqlFront

open SqlFront.Parser SqlFront.Clause SqlFront.Reading

variable {rule : ShardingRule} {catalog : Catalog} {start : Cursor} {P : Condition → Prop}

def WhereRecords (rule : ShardingRule) (start : Cursor) (P : Condition → Prop) : Prop :=
  ∀ ⦃w w' : Workspace Findings⦄ ⦃u : Unit⦄, start.Reaches w.cursor →
    whereClause rule w = .ok u w' → ∀ x ∈ w'.draft.conditions.toList,
      x ∈ w.draft.conditions.toList ∨ P x

def LevelRecords (P : Condition → Prop) (w w' : Workspace Query) (inner : List Query) : Prop :=
  (∀ x ∈ w'.draft.findings.conditions.toList,
    x ∈ w.draft.findings.conditions.toList ∨ P x) ∧
  ∀ q ∈ inner, ∀ x ∈ q.findings.conditions.toList, P x

theorem fromClause_records {sub : Parser Query (List Query)} {w w' : Workspace Query}
    {inner : List Query}
    (hsub : ∀ {v v' : Workspace Query} {inner : List Query}, w.cursor.Reaches v.cursor →
      v.cursor.current.type ≠ .symbol .question → sub v = .ok inner v' →
      LevelRecords P v v' inner)
    (h : fromClause rule sub w = .ok inner w') : LevelRecords P w w' inner := by
  cases fromClause_run h with
  | absent => exact ⟨fun _ => Or.inl, fun _ hq => by simp at hq⟩
  | tables hat hc _ ht =>
    have hp := (onFindings_progress (C := False) ht fun _ hr =>
      tableReferences_progress trivial (@tablePlaces_all rule) trivial hr).1
    refine ⟨fun x hx => Or.inl ?_, fun _ hq => by simp at hq⟩
    exact hp.found.conditions_eq ▸ hx
  | @query c c' w₁ _ _ hat hc hopen hc' hn hj =>
    obtain ⟨q, chain, c₁, c₂, hs, -, -, rfl, rfl⟩ := nestedQuery_ok hn
    have hreach : w.cursor.Reaches c' := (Cursor.Reaches.single hc).trans (.single hc')
    obtain ⟨hq, hchain⟩ := hsub hreach (not_question_of_atSubQuery hopen hc') hs
    have hp := behindNestedQuery_progress (C := False) trivial (@tablePlaces_all rule)
      (fun _ => trivial) hj
    refine ⟨fun x hx => Or.inl ?_, fun r hr x hx => ?_⟩
    · exact hp.found.conditions_eq ▸ hx
    · rcases List.mem_cons.1 hr with rfl | hr
      · rcases hq x hx with hx | hx
        · cases hx
        · exact hx
      · exact hchain r hr x hx

theorem queryLevel_records (hP : WhereRecords rule start P) {n : ℕ} {w w' : Workspace Query}
    {inner : List Query} (hw : start.Reaches w.cursor)
    (hq : w.cursor.current.type ≠ .symbol .question)
    (h : queryLevel rule n w = .ok inner w') : LevelRecords P w w' inner := by
  induction n generalizing w w' inner with
  | zero => exact (throw_ok.1 h).elim
  | succ n ih =>
    obtain ⟨w₁, w₂, w₃, h₁, h₂, h₃, h₄⟩ := queryLevel_succ_ok h
    have hhead : QueryProgress (Names fun _ _ => True) False False w w₁ :=
      queryHead_progress hq h₁
    have hfrom := fromClause_progress (C := True) trivial (@queryPlaces_all rule) trivial
      (fun _ => queryLevel_progress trivial trivial queryPlaces_all trivial) h₂
    have htail : QueryProgress (Names fun _ _ => True) False False w₃ w' := queryTail_progress h₄
    have hw₁ : start.Reaches w₁.cursor := hw.trans hhead.found.reaches
    obtain ⟨hout, hin⟩ := fromClause_records (P := P) (fun hv => ih (hw₁.trans hv)) h₂
    refine ⟨fun x hx => ?_, hin⟩
    obtain ⟨c, f, hwhere, rfl⟩ := onFindings_ok.1 h₃
    have hx := htail.found.conditions_eq ▸ hx
    rcases hP (hw₁.trans hfrom.1.found.reaches) hwhere x hx with hx | hx
    · rcases hout x hx with hx | hx
      · exact Or.inl (hhead.found.conditions_eq ▸ hx)
      · exact Or.inr hx
    · exact Or.inr hx

/-- What holds of all that WHERE records holds of the conditions of a statement. -/
theorem Reads.records {c c' : Cursor} {s : Statement} (hP : WhereRecords rule c P)
    (hinsert : c.isAt (.keyword .INSERT) = false) (h : Reads rule catalog c c' s) :
    ∀ x ∈ s.findings.conditions.toList, P x := by
  -- A reading without a WHERE clause has no conditions.
  have none : ∀ {w w' : Workspace Findings}, w.draft.conditions.toList = [] →
      Progress (Names fun _ _ => True) True False w w' →
      ∀ x ∈ w'.draft.conditions.toList, P x := by
    intro w w' hw hp x hx
    rw [hp.conditions_eq, hw] at hx
    cases hx
  -- With one, they are those that it records.
  have some : ∀ {f : Findings} {w v : Workspace Findings} {u : Unit}, w.cursor = c →
      w.draft.conditions.toList = [] → Progress (Names fun _ _ => True) True False w v →
      whereClause rule v = .ok u ⟨c', f⟩ → ∀ x ∈ f.conditions.toList, P x := by
    intro f w v u hc hw hp hwhere x hx
    rcases hP (hc ▸ hp.reaches) hwhere x hx with hx | hx
    · exact none hw hp x hx
    · exact hx
  cases h with
  | select hat hr =>
    obtain ⟨hout, hin⟩ := queryLevel_records hP (.refl c) (not_question_of_keyword hat) hr
    intro x hx
    have hmerged := (Query.derive_extends catalog _).conditions ▸ hx
    obtain ⟨r, hr, hm⟩ := Query.mem_mergeChain_conditions hmerged
    rcases List.mem_cons.1 hr with rfl | hr
    · exact (hout x hm).resolve_left (by simp [Conditions.toList, Conditions.empty])
    · exact hin r hr x hm
  | insert hat => simp [hat] at hinsert
  | update hat hr =>
    obtain ⟨v, hv, hwhere⟩ := update_where (T := True) (C := False) trivial
      (@tablePlaces_all rule) (not_question_of_keyword hat) (fun _ _ => trivial) hr
    exact some rfl rfl hv hwhere
  | delete hat hr =>
    obtain ⟨v, hv, hwhere⟩ := deletion_where (T := True) (C := False) trivial
      (@tablePlaces_all rule) (not_question_of_keyword hat) (fun _ _ => trivial) hr
    exact some rfl rfl hv hwhere
  | definition hc hr => exact none rfl (definition_progress names_all trivial _ hr)
  | access hc hr => exact none rfl (access_progress names_all trivial _ hr)
  | transaction =>
    intro x hx
    cases hx
  | administration hr => exact none rfl (administration_progress names_all trivial _ hr)

end SqlFront

import SqlFront.Proofs.Placeholder.Recorded

/-!
# What reading may do

Everything a reader does to a workspace is composed of a few kinds of changes: it moves forward
and counts the placeholders that it moves past, it adds the edit of a table name at a token that
it has read, and it changes the other edits, the tables and the conditions. Each clause is shown
once to be composed of these changes; every invariant of reading is then an induction over them.

A name is taken as it stands: a placeholder in its place is not counted. The places of the names
behind dots, casts and index hints are seen in the text, the others are a parameter.
-/

set_option autoImplicit false

namespace SqlFront

open Cursor

def hintWords : List TokenType := keywordTypes [.USE, .IGNORE, .FORCE]

inductive Introduces : Cursor → Cursor → Prop
  | member {c c' : Cursor} : c.isAtAny [.symbol .dot, .symbol .doubleColon] = true →
      c.advance = .ok c' → Introduces c c'
  | hint {c c₁ c₂ c' : Cursor} : c.dialect.grammar.indexHints = true →
      c.isAtAny hintWords = true → c.advance = .ok c₁ →
      (c₂ = c₁ ∨ c₁.isAtAny (keywordTypes [.INDEX, .KEY]) = true ∧ c₁.advance = .ok c₂) →
      c₂.isAt (.keyword .FOR) = true → c₂.advance = .ok c' → Introduces c c'

theorem Introduces.reaches {c c' : Cursor} (h : Introduces c c') : c.Reaches c' := by
  cases h with
  | member _ h => exact Reaches.single h
  | hint _ _ h₁ h₂ _ h₃ =>
    rcases h₂ with rfl | ⟨-, h₂⟩
    · exact (Reaches.single h₁).trans (Reaches.single h₃)
    · exact ((Reaches.single h₁).trans (Reaches.single h₂)).trans (Reaches.single h₃)

inductive Moves (N : Cursor → Prop) : Cursor → ℕ → Cursor → ℕ → Prop
  | refl (c : Cursor) (k : ℕ) : Moves N c k c k
  | trans {c c₁ c₂ : Cursor} {k k₁ k₂ : ℕ} :
      Moves N c k c₁ k₁ → Moves N c₁ k₁ c₂ k₂ → Moves N c k c₂ k₂
  | token {c c' : Cursor} {k : ℕ} : c.isAt (.symbol .question) = false →
      c.advance = .ok c' → Moves N c k c' k
  | placeholder {c c' : Cursor} {k : ℕ} : c.isAt (.symbol .question) = true →
      c.advance = .ok c' → Moves N c k c' (k + 1)
  | introduced {c c' c'' : Cursor} {k : ℕ} : Introduces c c' → c'.advance = .ok c'' →
      Moves N c k c'' k
  | name {c c' : Cursor} {k : ℕ} : N c → c.advance = .ok c' → Moves N c k c' k

variable {N : Cursor → Prop} {T C : Prop}

theorem Moves.reaches {c c' : Cursor} {k k' : ℕ} (h : Moves N c k c' k') : c.Reaches c' := by
  induction h with
  | refl => exact Reaches.refl _
  | trans _ _ ih₁ ih₂ => exact ih₁.trans ih₂
  | token _ h => exact Reaches.single h
  | placeholder _ h => exact Reaches.single h
  | introduced hi h => exact hi.reaches.trans (Reaches.single h)
  | name _ h => exact Reaches.single h

inductive Progress (N : Cursor → Prop) (T C : Prop) :
    Workspace Findings → Workspace Findings → Prop
  | refl (w : Workspace Findings) : Progress N T C w w
  | trans {w w₁ w₂ : Workspace Findings} :
      Progress N T C w w₁ → Progress N T C w₁ w₂ → Progress N T C w w₂
  | move {c c' : Cursor} {f : Findings} {k : ℕ} : Moves N c f.placeholders c' k →
      Progress N T C ⟨c, f⟩ ⟨c', { f with placeholders := k }⟩
  | tableEdit {w w' : Workspace Findings} : Progress N T C w w' → Progress N T C w
      ⟨w'.cursor, w'.draft.addEdit (.table w.cursor.current.start w.cursor.current.literals)⟩
  | edits {c : Cursor} {f : Findings} {es : List Edit} :
      (∀ e ∈ es, e ∈ f.edits ∨ e.tableName? = none) →
      Progress N T C ⟨c, f⟩ ⟨c, { f with edits := es }⟩
  | tables {c : Cursor} {f : Findings} {ts : Tables} : T →
      Progress N T C ⟨c, f⟩ ⟨c, { f with tables := ts }⟩
  | condition {w w' : Workspace Findings} {x : Condition} : C → Progress N T C w w' →
      w'.draft.conditions = w.draft.conditions →
      OrderedAt (ComparisonAt (Moves N w.cursor w.draft.placeholders)) w.cursor w'.cursor [x] →
      Progress N T C w ⟨w'.cursor, w'.draft.addCondition x⟩

namespace Progress

variable {w w' : Workspace Findings}

theorem moves (h : Progress N T C w w') :
    Moves N w.cursor w.draft.placeholders w'.cursor w'.draft.placeholders := by
  induction h with
  | refl => exact .refl _ _
  | trans _ _ ih₁ ih₂ => exact ih₁.trans ih₂
  | move h => exact h
  | tableEdit _ ih => exact ih
  | edits => exact .refl _ _
  | tables => exact .refl _ _
  | condition _ _ _ _ ih => exact ih

theorem reaches (h : Progress N T C w w') : w.cursor.Reaches w'.cursor := h.moves.reaches

theorem tables_eq (h : Progress N False C w w') : w'.draft.tables = w.draft.tables := by
  induction h with
  | refl => rfl
  | trans _ _ ih₁ ih₂ => rw [ih₂, ih₁]
  | move => rfl
  | tableEdit _ ih => exact ih
  | edits => rfl
  | tables h => exact h.elim
  | condition _ _ _ _ ih => exact ih

theorem conditions_eq (h : Progress N T False w w') :
    w'.draft.conditions = w.draft.conditions := by
  induction h with
  | refl => rfl
  | trans _ _ ih₁ ih₂ => rw [ih₂, ih₁]
  | move => rfl
  | tableEdit _ ih => exact ih
  | edits => rfl
  | tables => rfl
  | condition h => exact h.elim

theorem mono {C' : Prop} (hC : C → C') (h : Progress N T C w w') : Progress N T C' w w' := by
  induction h with
  | refl w => exact .refl w
  | trans _ _ ih₁ ih₂ => exact ih₁.trans ih₂
  | move h => exact .move h
  | tableEdit _ ih => exact .tableEdit ih
  | edits h => exact .edits h
  | tables h => exact .tables h
  | condition h _ heq hx ih => exact .condition (hC h) ih heq hx

theorem withConditions (h : Progress N T False w w') (cs : Conditions) :
    Progress N T False ⟨w.cursor, { w.draft with conditions := cs }⟩
      ⟨w'.cursor, { w'.draft with conditions := cs }⟩ := by
  induction h with
  | refl => exact .refl _
  | trans _ _ ih₁ ih₂ => exact ih₁.trans ih₂
  | move h => exact .move h
  | tableEdit _ ih => exact .tableEdit ih
  | edits h => exact .edits h
  | tables h => exact .tables h
  | condition h => exact h.elim

theorem exists_comparisons (h : Progress N T C w w') : ∃ xs : List Condition,
    OrderedAt (ComparisonAt (Moves N w.cursor w.draft.placeholders)) w.cursor w'.cursor xs ∧
      w'.draft.conditions = xs.foldl Conditions.add w.draft.conditions := by
  induction h with
  | refl => exact ⟨[], .nil (.refl _), rfl⟩
  | trans h₁ _ ih₁ ih₂ =>
    obtain ⟨xs, hxs, h₁'⟩ := ih₁
    obtain ⟨ys, hys, h₂'⟩ := ih₂
    have hys := hys.mono fun _ _ _ hy => hy.mono fun _ _ => h₁.moves.trans
    exact ⟨xs ++ ys, hxs.append hys, by rw [h₂', h₁', List.foldl_append]⟩
  | move h => exact ⟨[], .nil h.reaches, rfl⟩
  | tableEdit _ ih => exact ih
  | edits => exact ⟨[], .nil (.refl _), rfl⟩
  | tables => exact ⟨[], .nil (.refl _), rfl⟩
  | @condition w w' x _ _ heq hx _ => exact ⟨[x], hx, congrArg (·.add x) heq⟩

theorem tableEdit_token (h : Progress N T C w w') {p : ℕ} {l : String}
    (he : .table p l ∈ w'.draft.edits) : .table p l ∈ w.draft.edits ∨
      ∃ c, w.cursor.Reaches c ∧ p = c.current.start ∧ l = c.current.literals := by
  induction h with
  | refl => exact Or.inl he
  | trans h₁ _ ih₁ ih₂ =>
    rcases ih₂ he with he | ⟨c, hc, hp⟩
    · exact ih₁ he
    · exact Or.inr ⟨c, h₁.reaches.trans hc, hp⟩
  | move => exact Or.inl he
  | @tableEdit w w' _ ih =>
    rcases List.mem_append.1 he with he | he
    · exact ih he
    · simp only [List.mem_singleton, Edit.table.injEq] at he
      exact Or.inr ⟨w.cursor, Reaches.refl _, he⟩
  | edits hes =>
    rcases hes _ he with he | hn
    · exact Or.inl he
    · simp [Edit.tableName?] at hn
  | tables => exact Or.inl he
  | condition _ _ _ _ ih => exact ih he

theorem advance {c c' : Cursor} {f : Findings} (hq : c.isAt (.symbol .question) = false)
    (h : c.advance = .ok c') : Progress N T C ⟨c, f⟩ ⟨c', f⟩ :=
  .move (.token hq h)

theorem addEdit {c : Cursor} {f : Findings} {e : Edit} (h : e.tableName? = none) :
    Progress N T C ⟨c, f⟩ ⟨c, f.addEdit e⟩ := by
  refine .edits fun x hx => ?_
  rcases List.mem_append.1 hx with hx | hx
  · exact Or.inl hx
  · exact Or.inr (List.mem_singleton.1 hx ▸ h)

end Progress

/-! ## Drafts with findings -/

class LawfulFindings (σ : Type) [HasFindings σ] : Prop where
  findings_set (s : σ) (f : Findings) : findings (setFindings s f) = f
  set_findings (s : σ) : setFindings s (findings s) = s

instance : LawfulFindings Findings := ⟨fun _ _ => rfl, fun _ => rfl⟩

instance : LawfulFindings Query := ⟨fun _ _ => rfl, fun _ => rfl⟩

instance : LawfulFindings InsertStatement := ⟨fun _ _ => rfl, fun _ => rfl⟩

def Workspace.found {σ : Type} [HasFindings σ] (w : Workspace σ) : Workspace Findings :=
  ⟨w.cursor, findings w.draft⟩

theorem Progress.of_findings {σ : Type} [HasFindings σ] {w : Workspace σ} {draft : σ}
    (h : findings draft = findings w.draft) :
    Progress N T C w.found (Workspace.found ⟨w.cursor, draft⟩) := by
  have hw : Workspace.found ⟨w.cursor, draft⟩ = w.found := congrArg (Workspace.mk w.cursor) h
  rw [hw]
  exact .refl w.found

class Course (N : outParam (Cursor → Prop)) (T C : outParam Prop) {σ : Type} [HasFindings σ]
    (R : Workspace σ → Workspace σ → Prop) : Prop where
  trans {w w₁ w₂ : Workspace σ} : R w w₁ → R w₁ w₂ → R w w₂
  lift {w : Workspace σ} {c : Cursor} {f : Findings} :
    Progress N T C w.found ⟨c, f⟩ → R w ⟨c, setFindings w.draft f⟩

instance : Course N T C (Progress N T C) := ⟨.trans, id⟩

structure QueryProgress (N : Cursor → Prop) (T C : Prop) (w w' : Workspace Query) : Prop where
  found : Progress N T C w.found w'.found
  limit {l : RowLimit} : w'.draft.limit? = some l →
    w.draft.limit? = some l ∨ l.At (Moves N w.cursor w.draft.findings.placeholders)

instance : Course N T C (QueryProgress N T C) where
  trans h₁ h₂ := ⟨h₁.found.trans h₂.found, fun hl => (h₂.limit hl).elim h₁.limit fun h =>
    Or.inr (h.mono fun _ _ => h₁.found.moves.trans)⟩
  lift h := ⟨h, Or.inl⟩

structure KeepsRows (N : Cursor → Prop) (T : Prop) (w w' : Workspace InsertStatement) : Prop where
  found : Progress N T False w.found w'.found
  keys : w'.draft.generatedKeys = w.draft.generatedKeys

instance : Course N T False (KeepsRows N T) where
  trans h₁ h₂ := ⟨h₁.found.trans h₂.found, h₂.keys.trans h₁.keys⟩
  lift h := ⟨h, rfl⟩

structure InsertProgress (rule : ShardingRule) (N : Cursor → Prop) (T : Prop)
    (w w' : Workspace InsertStatement) : Prop where
  found : Progress N T False w.found
    ⟨w'.cursor, { findings w'.draft with conditions := (findings w.draft).conditions }⟩
  rows : ∃ rows : List InsertedRow,
    OrderedAt (InsertedRow.At (Moves N w.cursor w.draft.findings.placeholders)) w.cursor w'.cursor
      rows ∧
    w'.draft.findings.conditions.groups =
      w.draft.findings.conditions.groups ++ rows.map (InsertedRow.group rule) ∧
    w'.draft.generatedKeys = w.draft.generatedKeys ++ rows.flatMap (InsertedRow.keys rule)

end SqlFront

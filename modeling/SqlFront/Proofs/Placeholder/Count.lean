import SqlFront.Proofs.Merge
import SqlFront.Proofs.Placeholder.Place

/-!
# The count of placeholders

Where no placeholder stands for a name, the count of a reading is the number of placeholders that
its cursor has moved past. Every reader of a clause or of an expression keeps this, and every query
in FROM begins with it, so that a placeholder in a statement has the number of those in front of its
own token.
-/

set_option autoImplicit false

namespace SqlFront

open SqlFront.Parser SqlFront.Clause SqlFront.Reading

/-- Exactly so many placeholders stand between the start and the cursor. -/
def Counted (start c : Cursor) (n : ℕ) : Prop :=
  ∃ ts, Cursor.Walk start ts c ∧ n = placeholderCount ts

/-- No placeholder follows a dot or a cast, and none stands in the place of a table name, of the
word behind `FOR` in an index hint, or before `INTO`. -/
structure PlainNames (rule : ShardingRule) (start : Cursor) : Prop where
  introduced {c c' : Cursor} :
    start.Reaches c → Introduces c c' → c'.isAt (.symbol .question) = false
  named {p : Place} {c : Cursor} : p = .table ∨ p = .joined ∨ p = .beforeInto →
    Stands rule start p c → c.isAt (.symbol .question) = false

variable {rule : ShardingRule} {catalog : Catalog} {start c c' : Cursor} {k k' : ℕ}

theorem PlainNames.names (h : PlainNames rule start) (hc : Names (Stands rule start) c) :
    c.isAt (.symbol .question) = false := by
  rcases hc with hc | hc | hc
  · exact h.named (Or.inl rfl) hc
  · exact h.named (Or.inr (Or.inl rfl)) hc
  · exact h.named (Or.inr (Or.inr rfl)) hc

/-! ## Moves count -/

theorem Counted.refl : Counted start start 0 := ⟨[], .refl start, rfl⟩

theorem Counted.reaches (h : Counted start c k) : start.Reaches c := by
  obtain ⟨ts, hw, -⟩ := h
  exact hw.reaches

/-- A step past a token that is no placeholder. -/
theorem Counted.token (h : Counted start c k) (hq : c.isAt (.symbol .question) = false)
    (hc : c.advance = .ok c') : Counted start c' k := by
  obtain ⟨ts, hw, rfl⟩ := h
  refine ⟨ts ++ [c.current], hw.append (.single hc), ?_⟩
  have h0 : placeholderCount [c.current] = 0 := by
    simpa [placeholderCount, Cursor.isAt] using hq
  simp [placeholderCount, List.countP_append] at h0 ⊢
  exact h0

/-- A step past a placeholder. -/
theorem Counted.placeholder (h : Counted start c k) (hq : c.isAt (.symbol .question) = true)
    (hc : c.advance = .ok c') : Counted start c' (k + 1) := by
  obtain ⟨ts, hw, rfl⟩ := h
  refine ⟨ts ++ [c.current], hw.append (.single hc), ?_⟩
  rw [Cursor.isAt_iff] at hq
  simp [placeholderCount, List.countP_append, hq]

theorem Counted.introduces (h : Counted start c k) (hi : Introduces c c') :
    Counted start c' k := by
  cases hi with
  | member hat hc => exact h.token (not_question_of_mem (by decide) hat) hc
  | hint _ hat hc h₂ hfor hc' =>
    have h₁ := h.token (not_question_of_mem (question_not_mem_keywords _) hat) hc
    rcases h₂ with rfl | ⟨hat', hc₂⟩
    · exact h₁.token (isAt_eq_false hfor (by simp)) hc'
    · have h₂ := h₁.token (not_question_of_mem (question_not_mem_keywords _) hat') hc₂
      exact h₂.token (isAt_eq_false hfor (by simp)) hc'

theorem Counted.moves (hp : PlainNames rule start)
    (h : Moves (Names (Stands rule start)) c k c' k') (hc : Counted start c k) :
    Counted start c' k' := by
  induction h with
  | refl => exact hc
  | trans _ _ ih₁ ih₂ => exact ih₂ (ih₁ hc)
  | token hq h => exact hc.token hq h
  | placeholder hq h => exact hc.placeholder hq h
  | introduced hi h => exact (hc.introduces hi).token (hp.introduced hc.reaches hi) h
  | name hn h => exact hc.token (hp.names hn) h

theorem Moves.le {N : Cursor → Prop} (h : Moves N c k c' k') : k ≤ k' := by
  induction h with
  | refl => exact le_rfl
  | trans _ _ ih₁ ih₂ => exact ih₁.trans ih₂
  | token => exact le_rfl
  | placeholder => exact Nat.le_succ _
  | introduced => exact le_rfl
  | name => exact le_rfl

/-! ## Readers -/

inductive Reader (rule : ShardingRule) (catalog : Catalog) :
    (σ α : Type) → [HasFindings σ] → Option Place → Parser σ α → Prop
  | expression : Reader rule catalog Findings Expression none expression
  | skipParentheses : Reader rule catalog Findings String none skipParentheses
  | skipOperand : Reader rule catalog Findings Unit none skipOperand
  | skipOperations : Reader rule catalog Findings Unit none skipOperations
  | skipCase : Reader rule catalog Findings Unit none skipCase
  | firstOperand :
      Reader rule catalog Findings (Option SelectItem) none (firstOperand rule)
  | nextOperand : Reader rule catalog Findings Bool none nextOperand
  | selectItem : Reader rule catalog Query SelectItem none (selectItem rule)
  | distinctClause : Reader rule catalog Query Unit none distinctClause
  | topClause : Reader rule catalog Query Unit none topClause
  | selectList : Reader rule catalog Query Unit none (selectList rule)
  | fromClause {n : ℕ} : Reader rule catalog Query (List Query) (some .selected)
      (fromClause rule (queryLevel rule n))
  | tableFactor {single : Bool} :
      Reader rule catalog Findings Unit (some .table) (tableFactor rule single)
  | tableReferences {single : Bool} :
      Reader rule catalog Findings Unit (some .table) (tableReferences rule single)
  | joins : Reader rule catalog Findings Unit (some .behind) (joins rule)
  | joinCondition : Reader rule catalog Findings Unit none joinCondition
  | skipIndexHints : Reader rule catalog Findings Unit none skipIndexHints
  | comparison : Reader rule catalog Findings Unit none (comparison rule)
  | inValues : Reader rule catalog Findings (Option (List Expression)) none inValues
  | betweenValues : Reader rule catalog Findings (List Expression) none betweenValues
  | whereClause : Reader rule catalog Findings Unit none (whereClause rule)
  | groupByClause : Reader rule catalog Query Unit none groupByClause
  | havingClause : Reader rule catalog Query Unit none havingClause
  | orderByClause : Reader rule catalog Query Unit none orderByClause
  | limitClause : Reader rule catalog Query Unit none limitClause
  | setOperationClause : Reader rule catalog Query Unit none setOperationClause
  | queryLevel {n : ℕ} :
      Reader rule catalog Query (List Query) (some .query) (queryLevel rule n)
  | assignment : Reader rule catalog Findings Unit none assignment
  | updateAssignments : Reader rule catalog Findings Unit none updateAssignments
  | intoClause : Reader rule catalog InsertStatement Unit (some .beforeInto) intoClause
  | columnList : Reader rule catalog InsertStatement Unit none (columnList rule catalog)
  | valuesRow {table : String} :
      Reader rule catalog InsertStatement Unit none (valuesRow rule table)
  | valuesClause : Reader rule catalog InsertStatement Unit none (valuesClause rule)
  | insertAssignments : Reader rule catalog InsertStatement Unit none (insertAssignments rule)
  | duplicateKeyClause : Reader rule catalog InsertStatement Unit none (duplicateKeyClause rule)

/-- The forward move of a reader from its place on. -/
theorem Reader.moves {σ α : Type} [HasFindings σ] {place? : Option Place} {p : Parser σ α}
    (hr : Reader rule catalog σ α place? p) {w w' : Workspace σ} {a : α}
    (hw : ∀ pl ∈ place?, Stands rule start pl w.cursor) (h : p w = .ok a w') :
    Moves (Names (Stands rule start)) w.cursor (findings w.draft).placeholders w'.cursor
      (findings w'.draft).placeholders := by
  -- What the readers keep is told in four relations, all of which say how the count has moved.
  have found : ∀ {w w' : Workspace Findings},
      Progress (Names (Stands rule start)) True True w w' →
      Moves (Names (Stands rule start)) w.cursor w.draft.placeholders w'.cursor
        w'.draft.placeholders := fun h => h.moves
  have query : ∀ {w w' : Workspace Query},
      QueryProgress (Names (Stands rule start)) True True w w' →
      Moves (Names (Stands rule start)) w.cursor w.draft.findings.placeholders w'.cursor
        w'.draft.findings.placeholders := fun h => h.found.moves
  have kept : ∀ {w w' : Workspace InsertStatement},
      KeepsRows (Names (Stands rule start)) True w w' →
      Moves (Names (Stands rule start)) w.cursor w.draft.findings.placeholders w'.cursor
        w'.draft.findings.placeholders := fun h => h.found.moves
  have insert : ∀ {w w' : Workspace InsertStatement},
      InsertProgress rule (Names (Stands rule start)) True w w' →
      Moves (Names (Stands rule start)) w.cursor w.draft.findings.placeholders w'.cursor
        w'.draft.findings.placeholders := fun h => h.moves
  cases hr with
  | expression => exact found (follows_expression h)
  | skipParentheses => exact found (follows_skipParentheses h)
  | skipOperand => exact found (follows_skipOperand h)
  | skipOperations => exact found (follows_skipOperations h)
  | skipCase => exact found (follows_skipCase h)
  | firstOperand => exact found (follows_firstOperand h)
  | nextOperand => exact found (follows_nextOperand h)
  | selectItem => exact query (follows_selectItem rule h)
  | distinctClause => exact query (follows_distinctClause h)
  | topClause => exact query (topClause_progress h)
  | selectList => exact query (selectList_progress rule h)
  | fromClause =>
    refine query (fromClause_progress trivial Stands.queryPlaces (hw _ rfl) ?_ h).query
    exact fun hv hq hr => queryLevel_progress trivial trivial Stands.queryPlaces hv hq hr
  | tableFactor =>
    exact found (tableFactor_progress trivial (Or.inl (hw _ rfl)) h)
  | tableReferences =>
    exact found (tableReferences_progress trivial Stands.queryPlaces.toTablePlaces (hw _ rfl) h).1
  | joins => exact found (joins_progress trivial Stands.queryPlaces.toTablePlaces (hw _ rfl) h).1
  | joinCondition => exact found (follows_joinCondition h)
  | skipIndexHints => exact found (skipIndexHints_progress h)
  | comparison => exact found (comparison_progress trivial rule h)
  | inValues => exact found (follows_inValues h)
  | betweenValues => exact found (follows_betweenValues h)
  | whereClause => exact found (whereClause_progress trivial rule h)
  | groupByClause => exact query (follows_groupByClause h)
  | havingClause => exact query (follows_havingClause h)
  | orderByClause => exact query (follows_orderByClause h)
  | limitClause => exact query (limitClause_progress h)
  | setOperationClause => exact query (follows_setOperationClause h)
  | queryLevel =>
    have hq := (hw _ rfl).query_select
    exact query (queryLevel_progress trivial trivial Stands.queryPlaces (hw _ rfl)
      (by rw [hq]; simp) h).query
  | assignment => exact found (follows_assignment h)
  | updateAssignments => exact found (follows_updateAssignments h)
  | intoClause => exact kept (intoClause_progress trivial Stands.insertPlaces (hw _ rfl) h)
  | columnList => exact kept (columnList_progress catalog h)
  | valuesRow => exact insert (valuesRow_progress _ h)
  | valuesClause => exact insert (valuesClause_progress h)
  | insertAssignments => exact insert (insertAssignments_progress h)
  | duplicateKeyClause => exact kept (follows_duplicateKeyClause h)

/-! ## Tokens -/

/-- The tokens that are moved past and those that are left are all tokens, except at the end. -/
theorem Cursor.Walk.rest {ts : List Token} (h : c.Walk ts c') :
    c.rest = ts ++ c'.rest ∨ (c'.ahead.tokens = [] ∧ c.ahead.ending = .ok c'.current) := by
  induction h with
  | refl => exact Or.inl rfl
  | @step c c₁ c' ts hc hw ih =>
    rcases ih with ih | ⟨hnil, he⟩
    · rcases Cursor.advance_rest hc with hr | ⟨hnil, hr, he⟩
      · exact Or.inl (by rw [hr, ih]; rfl)
      · -- Behind the last token the cursor stays where it is.
        obtain ⟨rfl, hrest⟩ : ts = [] ∧ c'.rest = [c₁.current] := by
          cases ts with
          | nil => exact ⟨rfl, by rw [← hr, ih]; rfl⟩
          | cons t ts =>
            rw [ih] at hr
            simp [Cursor.rest] at hr
        simp only [Cursor.rest, List.cons.injEq] at hrest
        exact Or.inr ⟨hrest.2, hrest.1 ▸ he⟩
    · exact Or.inr ⟨hnil, by rw [← Cursor.advance_ending hc]; exact he⟩

/-! ## What is recorded -/

variable {N : Cursor → Prop} {T C : Prop}

theorem Conditions.toList_foldl_add {cs : Conditions} {xs : List Condition}
    (h : cs.groups.length ≤ 1) : (xs.foldl add cs).toList = cs.toList ++ xs := by
  induction xs generalizing cs with
  | nil => exact (List.append_nil _).symm
  | cons x xs ih =>
    have hadd : (cs.add x).groups.length ≤ 1 ∧ (cs.add x).toList = cs.toList ++ [x] := by
      obtain ⟨_ | ⟨g, _ | ⟨g', gs⟩⟩⟩ := cs
      · simp [add, toList]
      · simp [add, toList]
      · simp at h
    rw [List.foldl_cons, ih hadd.1, hadd.2, List.append_assoc]
    rfl

/-- A reading that begins with the count and without conditions ends with it, and its conditions
stand in the text. -/
theorem Progress.counted {w w' : Workspace Findings} (hp : PlainNames rule start)
    (h : Progress (Names (Stands rule start)) T C w w')
    (hc : Counted start w.cursor w.draft.placeholders) (hw : w.draft.conditions = .empty) :
    Counted start w'.cursor w'.draft.placeholders ∧
      OrderedAt (ComparisonAt (Counted start)) w.cursor w'.cursor w'.draft.conditions.toList := by
  obtain ⟨xs, hxs, heq⟩ := h.exists_comparisons
  have hlist : w'.draft.conditions.toList = xs := by
    rw [heq, hw]
    exact Conditions.toList_foldl_add (Nat.zero_le 1)
  rw [hlist]
  exact ⟨hc.moves hp h.moves, hxs.mono fun _ _ _ hx => hx.mono fun _ _ hm => hc.moves hp hm⟩

theorem QueryProgress.limitAt {w w' : Workspace Query} {l : RowLimit} (hp : PlainNames rule start)
    (h : QueryProgress (Names (Stands rule start)) T C w w')
    (hc : Counted start w.cursor w.draft.findings.placeholders) (hw : w.draft.limit? = none)
    (hl : w'.draft.limit? = some l) : l.At (Counted start) := by
  rcases h.limit hl with hl | hl
  · rw [hw] at hl
    cases hl
  · exact hl.mono fun _ _ hm => hc.moves hp hm

/-- Queries one inside the other, each read between the ends of the one around it, from the count at
its own beginning on. What each of them records stands in the text. -/
inductive Levels (rule : ShardingRule) (start : Cursor) : Cursor → Cursor → List Query → Prop
  | nil {c c' : Cursor} : Levels rule start c c' []
  | cons {c c₁ c₂ c' : Cursor} {n k : ℕ} {q : Query} {inner : List Query} : c.Reaches c₁ →
      Counted start c₁ k →
      queryLevel rule n ⟨c₁, { findings := { kind := .dql, placeholders := k } }⟩ =
        .ok inner ⟨c₂, q⟩ →
      Counted start c₂ q.findings.placeholders →
      OrderedAt (ComparisonAt (Counted start)) c₁ c₂ q.findings.conditions.toList →
      (∀ l, q.limit? = some l → l.At (Counted start)) → Levels rule start c₁ c₂ inner →
      c₂.Reaches c' → Levels rule start c c' (q :: inner)

theorem Levels.of_query {n : ℕ} {q : Query} {inner : List Query} (hp : PlainNames rule start)
    (hc : Counted start c k)
    (hrun : queryLevel rule n ⟨c, { findings := { kind := .dql, placeholders := k } }⟩ =
      .ok inner ⟨c', q⟩)
    (h : QueryProgress (Names (Stands rule start)) T C
      ⟨c, { findings := { kind := .dql, placeholders := k } }⟩ ⟨c', q⟩)
    (hinner : Levels rule start c c' inner) {c₀ c₁ : Cursor} (h₀ : c₀.Reaches c)
    (h₁ : c'.Reaches c₁) : Levels rule start c₀ c₁ (q :: inner) := by
  obtain ⟨hend, hconditions⟩ := h.found.counted hp hc rfl
  exact .cons h₀ hc hrun hend hconditions (fun l hl => h.limitAt hp hc rfl hl) hinner h₁

theorem Within.levels {inner : List Query} (hp : PlainNames rule start)
    (h : Within rule (Names (Stands rule start)) T C c k c' k' inner) (hc : Counted start c k) :
    Levels rule start c c' inner := by
  induction h with
  | nil => exact .nil
  | cons hm hrun hq _ hm' ih =>
    have hc₁ := hc.moves hp hm
    exact .of_query hp hc₁ hrun hq (ih hc₁) hm.reaches hm'.reaches

theorem Levels.exists_of_mem {qs : List Query} {q : Query} (h : Levels rule start c c' qs)
    (hq : q ∈ qs) : (∀ x ∈ q.findings.conditions.toList,
      ∃ c₁ c₂, start.Reaches c₁ ∧ ComparisonAt (Counted start) c₁ c₂ x) ∧
      ∀ l, q.limit? = some l → l.At (Counted start) := by
  induction h with
  | nil => cases hq
  | cons _ hc _ _ hconditions hlimit _ _ ih =>
    rcases List.mem_cons.1 hq with rfl | hq
    · refine ⟨fun x hx => ?_, hlimit⟩
      obtain ⟨c₁, c₂, hr, hx⟩ := hconditions.exists_of_mem (fun _ _ _ h => h.reaches) hx
      exact ⟨c₁, c₂, hc.reaches.trans hr, hx⟩
    · exact ih hq

/-! ## Statements -/

def Statement.readsRows : Statement → Bool
  | .select _ => true
  | .insert _ => true
  | .update _ => true
  | .delete _ => true
  | _ => false

/-- What a statement that is read between the cursors records stands in the text: each placeholder
in a condition, a generated key or a row limit has the number of those in front of its own token. -/
inductive Statement.RecordedAt (rule : ShardingRule) (start c' : Cursor) : Statement → Prop
  | select {s : SelectStatement} {q : Query} {inner : List Query} :
      Levels rule start start c' (q :: inner) →
      s.query.findings.conditions = (q.mergeChain inner).findings.conditions →
      s.query.limit? = (q.mergeChain inner).limit? →
      (∀ x ∈ s.query.findings.conditions.toList,
        ∃ c₁ c₂, start.Reaches c₁ ∧ ComparisonAt (Counted start) c₁ c₂ x) →
      (∀ l, s.query.limit? = some l → l.At (Counted start)) →
      RecordedAt rule start c' (.select s)
  | insert {s : InsertStatement} {rows : List InsertedRow} :
      OrderedAt (InsertedRow.At (Counted start)) start c' rows →
      s.findings.conditions.groups = rows.map (InsertedRow.group rule) →
      s.generatedKeys = rows.flatMap (InsertedRow.keys rule) → RecordedAt rule start c' (.insert s)
  | update {f : Findings} :
      OrderedAt (ComparisonAt (Counted start)) start c' f.conditions.toList →
      RecordedAt rule start c' (.update f)
  | delete {f : Findings} :
      OrderedAt (ComparisonAt (Counted start)) start c' f.conditions.toList →
      RecordedAt rule start c' (.delete f)

theorem Statement.RecordedAt.sorted {s : Statement} (h : s.RecordedAt rule start c') :
    (s.mapFindings fun f => { f with edits := Edit.sorted f.edits }).RecordedAt rule start c' := by
  cases h with
  | select hlevels hconditions hlimit hx hl => exact .select hlevels hconditions hlimit hx hl
  | insert hrows hgroups hkeys => exact .insert hrows hgroups hkeys
  | update hx => exact .update hx
  | delete hx => exact .delete hx

theorem LevelProgress.recordedAt {n : ℕ} {q : Query} {inner : List Query}
    (hp : PlainNames rule start) (hc : Counted start c 0)
    (hrun : queryLevel rule n ⟨c, {}⟩ = .ok inner ⟨c', q⟩)
    (h : LevelProgress rule (Names (Stands rule start)) T C ⟨c, {}⟩ ⟨c', q⟩ inner) :
    (Statement.select ((SelectStatement.mk q inner).merged.derive catalog)).RecordedAt rule start
      c' := by
  have hlevels : Levels rule start start c' (q :: inner) :=
    .of_query hp hc hrun h.query (h.within.levels hp hc) hc.reaches (.refl _)
  have hconditions := (Query.derive_extends catalog (q.mergeChain inner)).conditions
  have hlimit := Query.derive_limit catalog (q.mergeChain inner)
  refine .select hlevels hconditions hlimit (fun x hx => ?_) ?_
  · change x ∈ ((q.mergeChain inner).derive catalog).findings.conditions.toList at hx
    rw [hconditions] at hx
    obtain ⟨r, hr, hx⟩ := Query.mem_mergeChain_conditions hx
    exact (hlevels.exists_of_mem hr).1 x hx
  · change ∀ l, ((q.mergeChain inner).derive catalog).limit? = some l → _
    rw [hlimit]
    exact Query.mergeChain_limit RowLimit.At.orElse fun r hr => (hlevels.exists_of_mem hr).2

/-- A statement that reads or writes rows ends with the count. -/
theorem Reads.counted {s : Statement} (hp : PlainNames rule start) (hs : s.readsRows = true)
    (hc : start.advance = .ok c) (hstart : Counted start c 0) (h : Reads rule catalog c c' s) :
    Counted start c' s.findings.placeholders ∧ s.RecordedAt rule start c' := by
  cases h with
  | @select n q inner hat hr =>
    have hlevel := queryLevel_progress (T := True) (C := True) trivial trivial Stands.queryPlaces
      (.select hc hat) (not_question_of_keyword hat) hr
    refine ⟨?_, hlevel.recordedAt hp hstart hr⟩
    have hcount : (q.mergeChain inner).findings.placeholders = q.findings.placeholders := by
      refine Query.mergeChain_placeholders fun r hmem => ?_
      obtain ⟨_, _, _, -, -, hm⟩ := hlevel.within.exists_of_mem hmem
      exact hm.le
    change Counted start c' ((q.mergeChain inner).derive catalog).findings.placeholders
    rw [(Query.derive_extends catalog _).placeholders, hcount]
    exact hstart.moves hp hlevel.query.found.moves
  | insert hat hr =>
    obtain ⟨c₁, hc₁⟩ : ∃ c₁, c.advance = .ok c₁ := by
      obtain ⟨_, _, ha, -⟩ := bind_ok.1 hr
      obtain ⟨c₁, hc₁, -⟩ := advance_ok.1 ha
      exact ⟨c₁, hc₁⟩
    have hinsert := insertion_progress (T := True) trivial (@Stands.insertPlaces rule _)
      (not_question_of_keyword hat) hc₁ (.insert hc hat hc₁) hr
    obtain ⟨rows, hrows, hgroups, hkeys⟩ := hinsert.rows
    have hrows := hrows.mono fun _ _ _ h => h.mono fun _ _ hm => hstart.moves hp hm
    exact ⟨hstart.moves hp hinsert.moves, .insert (hrows.behind hstart.reaches) hgroups hkeys⟩
  | update hat hr =>
    have hupdate := progress_of_where (T := True) (C := True) trivial (update_where trivial
      Stands.queryPlaces.toTablePlaces (not_question_of_keyword hat)
      (fun hc₁ hs => Stands.update hc hat hc₁ hs) hr)
    obtain ⟨hend, hconditions⟩ := hupdate.counted hp hstart rfl
    exact ⟨hend, .update (hconditions.behind hstart.reaches)⟩
  | delete hat hr =>
    have hdelete := progress_of_where (T := True) (C := True) trivial (deletion_where trivial
      Stands.queryPlaces.toTablePlaces (not_question_of_keyword hat)
      (fun hc₁ hs => Stands.delete hc hat hc₁ hs) hr)
    obtain ⟨hend, hconditions⟩ := hdelete.counted hp hstart rfl
    exact ⟨hend, .delete (hconditions.behind hstart.reaches)⟩
  | _ => cases hs

/-! ## Texts -/

def introducers (g : Grammar) : List TokenType :=
  [.symbol .dot, .symbol .doubleColon, .keyword .FOR] ++ Stands.nameWords g

theorem question_follows {d : Dialect} {sql : String} {ts : List TokenType}
    (hts : TokenType.error ∉ ts)
    (hchain : (TokenStream.ofText d sql.toList).tokens.IsChain
      fun t u => u.type = .symbol .question → t.type ∉ ts)
    (hc : (Cursor.ofText d sql).Reaches c) (hat : c.isAtAny ts = true) (h : c.advance = .ok c') :
    c'.isAt (.symbol .question) = false := by
  by_contra hq
  have hq : c'.current.type = .symbol .question := Cursor.isAt_iff.1 (by simpa using hq)
  have hchain' : (Cursor.ofText d sql).rest.IsChain
      fun t u => u.type = .symbol .question → t.type ∉ ts := by
    refine List.isChain_cons.2 ⟨fun _ _ _ => hts, hchain⟩
  have notEnd : ∀ {e : Except LexicalFault Token}, (Cursor.ofText d sql).ahead.ending = e →
      e ≠ .ok c'.current := by
    rintro e rfl he
    obtain ⟨j, hj⟩ := Cursor.ending_type he
    rw [hj] at hq
    cases hq
  rcases Cursor.advance_rest h with hr | ⟨-, -, he⟩
  · rcases hc.rest with hs | ⟨hnil, -⟩
    · have hpair := hchain'.suffix hs
      rw [hr, Cursor.rest] at hpair
      exact (List.isChain_cons_cons.1 hpair).1 hq (Cursor.isAtAny_iff.1 hat)
    · simp [Cursor.rest, hnil] at hr
  · exact notEnd rfl (by rw [← hc.ending]; exact he)

theorem plainNames_of_tokens {d : Dialect} {sql : String}
    (hfirst : ∀ t ∈ (TokenStream.ofText d sql.toList).tokens.head?, t.type ≠ .keyword .INSERT)
    (hchain : (TokenStream.ofText d sql.toList).tokens.IsChain
      fun t u => u.type = .symbol .question → t.type ∉ introducers d.grammar) :
    PlainNames rule (Cursor.ofText d sql) := by
  have follows : ∀ {c c' : Cursor} {ts : List TokenType}, (Cursor.ofText d sql).Reaches c →
      c.isAtAny ts = true → (∀ t ∈ ts, t ∈ introducers d.grammar) → c.advance = .ok c' →
      c'.isAt (.symbol .question) = false := by
    intro c c' ts hc hat hts h
    refine question_follows ?_ hchain hc (Cursor.isAtAny_iff.2 (hts _ (Cursor.isAtAny_iff.1 hat))) h
    simp [introducers, Stands.nameWords, keywordTypes]
  constructor
  · intro c c' hc hi
    cases hi with
    | member hat h =>
      refine follows hc hat (fun t ht => ?_) h
      refine List.mem_append_left _ ?_
      simp only [List.mem_cons, List.not_mem_nil, or_false] at ht ⊢
      exact ht.imp_right Or.inl
    | @hint c₁ c₂ _ _ _ h₁ h₂ hfor h =>
      have hc₁ := hc.trans (Cursor.Reaches.single h₁)
      have hc₂ : (Cursor.ofText d sql).Reaches c₂ := by
        rcases h₂ with rfl | ⟨-, h₂⟩
        · exact hc₁
        · exact hc₁.trans (Cursor.Reaches.single h₂)
      have hat : c₂.isAtAny [.keyword .FOR] = true := by
        simpa [Cursor.isAtAny, Cursor.isAt] using hfor
      refine follows hc₂ hat (fun t ht => ?_) h
      obtain rfl := List.mem_singleton.1 ht
      exact List.mem_append_left _ (by decide)
  · intro p c hp hs
    by_cases hinto : p = .beforeInto
    · subst hinto
      obtain ⟨c₁, hc₁, hat⟩ := hs.insert_of_beforeInto
      rw [Cursor.isAt_iff] at hat
      rcases Cursor.advance_rest hc₁ with hr | ⟨-, -, he⟩
      · obtain ⟨-, htokens⟩ := List.cons.inj hr
        exact (hfirst c₁.current (by
          rw [show (TokenStream.ofText d sql.toList).tokens = c₁.rest from htokens]
          rfl) hat).elim
      · obtain ⟨j, hj⟩ := Cursor.ending_type he
        rw [hj] at hat
        cases hat
    · obtain ⟨c₀, hc₀, hstep, hat⟩ := hs.reached.2 (by
        rcases hp with rfl | rfl | rfl
        · exact Or.inl rfl
        · exact Or.inr rfl
        · exact (hinto rfl).elim)
      refine follows hc₀ hat (fun t ht => List.mem_append_right _ ?_) hstep
      rw [hc₀.dialect] at ht
      exact ht

/-! ## The law -/

/-- Every reader of a clause or of an expression ends with the count of the placeholders that have
been moved past, if it begins with it. -/
def KeepsCount (rule : ShardingRule) (catalog : Catalog) (start : Cursor) : Prop :=
  ∀ ⦃σ α : Type⦄ [HasFindings σ] ⦃place? : Option Place⦄ ⦃p : Parser σ α⦄,
    Reader rule catalog σ α place? p → ∀ ⦃w : Workspace σ⦄ ⦃a : α⦄ ⦃w' : Workspace σ⦄,
    (∀ pl ∈ place?, Stands rule start pl w.cursor) →
    Counted start w.cursor (findings w.draft).placeholders → p w = .ok a w' →
    Counted start w'.cursor (findings w'.draft).placeholders

/-- A placeholder that is read as an expression or as a part of a row limit has the number of those
that have been moved past as its ordinal. No other reader makes ordinals. -/
structure NumbersPlaceholders (start : Cursor) : Prop where
  expression {w w' : Workspace Findings} {n : ℕ} :
    Counted start w.cursor w.draft.placeholders → Clause.expression w = .ok (.placeholder n) w' →
      w.cursor.isAt (.symbol .question) = true ∧ Counted start w.cursor n
  limitValue {part : LimitPart} {w w' : Workspace Findings} {v? : Option LimitValue} {n : ℕ} :
    Counted start w.cursor w.draft.placeholders → Clause.limitValue part w = .ok v? w' →
      v?.bind LimitValue.index? = some n →
      w.cursor.isAt (.symbol .question) = true ∧ Counted start w.cursor n

theorem numbersPlaceholders_all (start : Cursor) : NumbersPlaceholders start where
  expression hc h := by
    obtain ⟨hq, rfl⟩ := expression_placeholder h
    exact ⟨hq, hc⟩
  limitValue hc h hn := by
    obtain ⟨hq, rfl⟩ := limitValue_placeholder h hn
    exact ⟨hq, hc⟩

/-- In an accepted text where no placeholder stands for a name, every reader keeps the count, and a
placeholder that is read as a value has the count as its ordinal. Every query in FROM is read from the
count at its beginning on, all that the statement records has the placeholders of its own tokens, and
the count of the statement is the number of the placeholders up to its end. -/
theorem placeholders_counted {d : Dialect} {sql : String} {s : Statement}
    (hp : PlainNames rule (Cursor.ofText d sql)) (hs : s.readsRows = true)
    (h : parse d rule catalog sql = .ok s) :
    KeepsCount rule catalog (Cursor.ofText d sql) ∧ NumbersPlaceholders (Cursor.ofText d sql) ∧
      ∃ s₀ c, text rule catalog ⟨Cursor.ofText d sql, ()⟩ = .ok s₀ ⟨c, ()⟩ ∧
        s = s₀.mapFindings (fun f => { f with edits := Edit.sorted f.edits }) ∧
        Counted (Cursor.ofText d sql) c s.findings.placeholders ∧
        s.RecordedAt rule (Cursor.ofText d sql) c := by
  refine ⟨fun σ α _ place? p hr w a w' hw hc hrun => hc.moves hp (hr.moves hw hrun),
    numbersPlaceholders_all _, ?_⟩
  obtain ⟨s₀, c', ht, rfl⟩ := parse_ok.1 h
  obtain ⟨c, hc, hr⟩ := text_reads ht
  have hs₀ : s₀.readsRows = true := by
    cases s₀ <;> first | rfl | cases hs
  obtain ⟨hend, hrecorded⟩ := hr.counted hp hs₀ hc (Counted.refl.token rfl hc)
  have hcount : (s₀.mapFindings
      fun f => { f with edits := Edit.sorted f.edits }).findings.placeholders =
        s₀.findings.placeholders := by
    cases s₀ <;> rfl
  exact ⟨s₀, c', ht, rfl, hcount ▸ hend, hrecorded.sorted⟩

/-- A query in FROM with a placeholder in front of it, one in its condition and one behind it. -/
def nestedPlaceholders : String :=
  "SELECT a + ? FROM (SELECT a FROM t_order WHERE user_id = ?) t LIMIT ?"

def shardedOrders : ShardingRule := ⟨[("t_order", ⟨["user_id"], none⟩)], none⟩

/-- The condition of the query in FROM has the ordinal 1, and the limit behind the query 2. -/
theorem placeholders_counted_nested : ∃ s q,
    PlainNames shardedOrders (Cursor.ofText .mysql nestedPlaceholders) ∧ s.readsRows = true ∧
    s = .select q ∧
    q.query.findings.conditions.toList =
      [⟨⟨"user_id", "t_order"⟩, .equal, [.placeholder 1]⟩] ∧
    q.query.limit? = some ⟨none, some (.placeholder 2)⟩ ∧ s.findings.placeholders = 3 ∧
    parse .mysql shardedOrders ⟨[]⟩ nestedPlaceholders = .ok s ∧
    KeepsCount shardedOrders ⟨[]⟩ (Cursor.ofText .mysql nestedPlaceholders) ∧
    NumbersPlaceholders (Cursor.ofText .mysql nestedPlaceholders) ∧
    ∃ s₀ c, text shardedOrders ⟨[]⟩ ⟨Cursor.ofText .mysql nestedPlaceholders, ()⟩ =
        .ok s₀ ⟨c, ()⟩ ∧
      s = s₀.mapFindings (fun f => { f with edits := Edit.sorted f.edits }) ∧
      Counted (Cursor.ofText .mysql nestedPlaceholders) c s.findings.placeholders ∧
      s.RecordedAt shardedOrders (Cursor.ofText .mysql nestedPlaceholders) c := by
  obtain ⟨s, hs, hview⟩ := parse_of_view .mysql shardedOrders ⟨[]⟩ nestedPlaceholders
    (fun s => s.query?.map fun q =>
      (q.findings.conditions.toList, q.limit?, q.findings.placeholders))
    (some ([⟨⟨"user_id", "t_order"⟩, .equal, [.placeholder 1]⟩],
      some ⟨none, some (.placeholder 2)⟩, 3)) (by decide +kernel)
  cases s with
  | select q =>
    obtain ⟨hconditions, hrest⟩ := Prod.mk.inj (Option.some.inj hview)
    obtain ⟨hlimit, hcount⟩ := Prod.mk.inj hrest
    have hplain : PlainNames shardedOrders (Cursor.ofText .mysql nestedPlaceholders) :=
      plainNames_of_tokens (by decide +kernel) (by decide +kernel)
    exact ⟨_, q, hplain, rfl, rfl, hconditions, hlimit, hcount, hs,
      placeholders_counted hplain rfl hs⟩
  | _ => cases hview

end SqlFront

import SqlFront.Proofs.Progress.Table
import SqlFront.Proofs.Progress.Where
import SqlFront.Reading.Change

/-!
# INSERT

A row stands where it is read, and its values give a group of conditions and the generated keys. The
edits of the column list are none of table names.
-/

set_option autoImplicit false

namespace SqlFront

open SqlFront.Parser SqlFront.Clause SqlFront.Reading

structure InsertPlaces (P : Place → Cursor → Prop) : Prop where
  beforeInto {c c' : Cursor} : P .beforeInto c → c.isAtAny [.keyword .INTO] = false →
    c.advance = .ok c' → P .beforeInto c'
  into {c c' : Cursor} : P .beforeInto c → c.isAt (.keyword .INTO) = true →
    c.advance = .ok c' → P .table c'

theorem insertPlaces_all : InsertPlaces fun _ _ => True :=
  ⟨fun _ _ _ => trivial, fun _ _ _ => trivial⟩

variable {N : Cursor → Prop} {T : Prop} {P : Place → Cursor → Prop} {rule : ShardingRule}

/-! ## Edits of the column list -/

def EditsOnly (g : InsertStatement → InsertStatement) : Prop :=
  ∀ s, (g s).generatedKeys = s.generatedKeys ∧ ∃ es : List Edit,
    (∀ e ∈ es, e ∈ s.findings.edits ∨ e.tableName? = none) ∧
      (g s).findings = { s.findings with edits := es }

theorem follows_modifyInsert {g : InsertStatement → InsertStatement} (hg : EditsOnly g) :
    Follows (KeepsRows N T) (modifyDraft g) := by
  intro w u w' h
  obtain rfl := modifyDraft_ok.1 h
  obtain ⟨hk, es, hes, hf⟩ := hg w.draft
  have he : Workspace.found ⟨w.cursor, g w.draft⟩ =
      ⟨w.cursor, { findings w.draft with edits := es }⟩ := congrArg (Workspace.mk w.cursor) hf
  refine ⟨?_, hk⟩
  rw [he]
  exact .edits hes

theorem editsOnly_of_findings {g : InsertStatement → InsertStatement}
    (hk : ∀ s, (g s).generatedKeys = s.generatedKeys) (hf : ∀ s, (g s).findings = s.findings) :
    EditsOnly g :=
  fun s => ⟨hk s, s.findings.edits, fun _ h => Or.inl h, hf s⟩

theorem editsOnly_addColumn (key? : Option String) (column : Column) :
    EditsOnly (addColumn key? column) :=
  editsOnly_of_findings (fun _ => rfl) fun _ => rfl

theorem addColumns_findings (key? : Option String) (table : String) (names : List String)
    (s : InsertStatement) :
    (names.foldl (fun s name => addColumn key? ⟨name, table⟩ s) s).findings = s.findings ∧
      (names.foldl (fun s name => addColumn key? ⟨name, table⟩ s) s).generatedKeys =
        s.generatedKeys := by
  induction names generalizing s with
  | nil => exact ⟨rfl, rfl⟩
  | cons name names ih => exact ih (addColumn key? ⟨name, table⟩ s)

theorem editsOnly_catalogColumns (catalog : Catalog) (table : String) (start : ℕ) :
    EditsOnly (catalogColumns rule catalog table start) := by
  intro s
  obtain ⟨hf, hk⟩ := addColumns_findings (rule.generatedKey? table) table (catalog.columns table) s
  refine ⟨hk, s.findings.edits ++ [.insertColumn (start - 1) "(",
    .items (start - 1) (catalog.columns table) true, .insertColumn (start - 1) ")"],
    fun e he => ?_, by simp only [catalogColumns, hf]⟩
  rcases List.mem_append.1 he with he | he
  · exact Or.inl he
  · right
    simp only [List.mem_cons, List.not_mem_nil, or_false] at he
    rcases he with rfl | rfl | rfl <;> rfl

theorem editsOnly_dropColumns : EditsOnly dropColumns :=
  fun _ => ⟨rfl, _, fun _ he => Or.inl (List.mem_filter.1 he).1, rfl⟩

theorem editsOnly_shortenColumns (key? : Option String) (n : ℕ) :
    EditsOnly (shortenColumns key? n) := by
  have same : ∀ s : InsertStatement, s.generatedKeys = s.generatedKeys ∧ ∃ es : List Edit,
      (∀ e ∈ es, e ∈ s.findings.edits ∨ e.tableName? = none) ∧
        s.findings = { s.findings with edits := es } :=
    fun s => ⟨rfl, s.findings.edits, fun _ h => Or.inl h, rfl⟩
  intro s
  cases key? with
  | none => exact same s
  | some key =>
    simp only [shortenColumns, removeKeyColumn]
    split
    · split
      · exact same s
      · refine ⟨rfl, _, fun e he => ?_, rfl⟩
        obtain ⟨e', he', rfl⟩ := List.mem_map.1 he
        cases e' with
        | items => exact Or.inr rfl
        | _ => exact Or.inl he'
    · exact same s

theorem appendItem?_edits {item : String} {es es' : List Edit} (h : appendItem? item es = some es')
    {e : Edit} (he : e ∈ es') : e ∈ es ∨ e.tableName? = none := by
  induction es generalizing es' with
  | nil => cases h
  | cons x es ih =>
    have tail : ∀ {es''}, appendItem? item es = some es'' → es' = x :: es'' →
        e ∈ x :: es ∨ e.tableName? = none := by
      rintro es'' htail rfl
      rcases List.mem_cons.1 he with rfl | he
      · exact Or.inl List.mem_cons_self
      · exact (ih htail he).imp_left (List.mem_cons_of_mem _)
    cases x with
    | items start items leading =>
      obtain rfl := Option.some.inj h
      rcases List.mem_cons.1 he with rfl | he
      · exact Or.inr rfl
      · exact Or.inl (List.mem_cons_of_mem _ he)
    | _ =>
      obtain ⟨es'', h', rfl⟩ := Option.map_eq_some_iff.1 h
      exact tail h' rfl

theorem editsOnly_addKeyColumn (key : String) : EditsOnly (addKeyColumn key) := by
  intro s
  refine ⟨rfl, _, fun e he => ?_, rfl⟩
  split at he
  · next h => exact appendItem?_edits h he
  · rcases List.mem_append.1 he with he | he
    · exact Or.inl he
    · exact Or.inr (List.mem_singleton.1 he ▸ rfl)

/-! ## Target and columns -/

theorem follows_insertTable {R : Workspace InsertStatement → Workspace InsertStatement → Prop}
    [Stepwise R] : Follows R insertTable := by
  refine follows_draft.bind fun s => ?_
  cases s.findings.tables.singleName? with
  | some name => exact .pure name
  | none => exact .throw _

theorem intoClause_progress {w : Workspace InsertStatement} (hT : T) (hP : InsertPlaces P)
    (hw : P .beforeInto w.cursor) :
    FollowsAt (KeepsRows (Names P) T) w intoClause := by
  intro u w' h
  obtain ⟨g, _, hg, h⟩ := bind_ok.1 h
  obtain ⟨-, rfl⟩ := grammar_ok.1 hg
  obtain ⟨_, v, hr, h⟩ := bind_ok.1 h
  rw [(refuseIf_ok.1 hr).2] at h
  obtain ⟨_, w₁, hs, h⟩ := bind_ok.1 h
  obtain ⟨_, w₂, he, h⟩ := bind_ok.1 h
  obtain ⟨_, w₃, ht, h⟩ := bind_ok.1 h
  obtain ⟨h₁, hb⟩ : KeepsRows (Names P) T w w₁ ∧ P .beforeInto w₁.cursor := by
    refine skipUntil_induct
      (I := fun v => KeepsRows (Names P) T w v ∧ P .beforeInto v.cursor) ?_
      ⟨Course.refl w, hw⟩ hs
    rintro v c ⟨hv, hb⟩ hat hc
    have hmove : KeepsRows (Names P) T v ⟨c, v.draft⟩ :=
      Course.lift (w := v) (f := findings v.draft) (.move (.name (Or.inr (Or.inr hb)) hc))
    exact ⟨Course.trans hv hmove, hP.beforeInto hb hat hc⟩
  have h₂ : KeepsRows (Names P) T w₁ w₂ := follows_expectKeyword _ he
  obtain ⟨hat, c, hc, rfl⟩ := expect_ok.1 he
  obtain ⟨c', f, hf, rfl⟩ := onFindings_ok.1 ht
  have h₃ : KeepsRows (Names P) T ⟨c, w₁.draft⟩ ⟨c', setFindings w₁.draft f⟩ :=
    Course.lift (bareTable_progress hT (Or.inl (hP.into hb hat hc)) hf)
  refine Course.trans (Course.trans (Course.trans h₁ h₂) h₃) (Follows.whileM ?_ ?_ h)
  · exact follows_skipKeywords _
  · exact (Follows.onFindings follows_skipParentheses).bind fun _ => .pure _

theorem follows_columnName {R : Workspace InsertStatement → Workspace InsertStatement → Prop}
    [FindingsCourse R] : Follows R columnName := by
  refine follows_current.bind fun t => FindingsCourse.expression.bind fun e => ?_
  cases e.columnName? with
  | some name => exact .pure _
  | none => exact .throw _

theorem writtenColumns_progress (table : String) :
    Follows (KeepsRows N T) (writtenColumns rule table) := by
  refine Follows.bind (.discard (.commaSeparated ?_)) fun _ => ?_
  · exact follows_columnName.bind fun _ => follows_modifyInsert (editsOnly_addColumn _ _)
  · refine follows_current.bind fun t => Follows.bind (follows_modifyInsert ?_) fun _ => ?_
    · exact editsOnly_of_findings (fun _ => rfl) fun _ => rfl
    · exact follows_expectSymbol (by decide)

theorem columnList_progress (catalog : Catalog) :
    Follows (KeepsRows N T) (columnList rule catalog) := by
  refine follows_insertTable.bind fun table => (follows_skipSymbol (by decide)).bind fun _ => ?_
  refine .ite (writtenColumns_progress table) (.ite ?_ (.pure _))
  exact follows_current.bind fun t => follows_modifyInsert (editsOnly_catalogColumns _ _ _)

/-! ## Rows -/

variable {w w' : Workspace InsertStatement}

namespace InsertProgress

theorem of_kept (h : KeepsRows N T w w') : InsertProgress rule N T w w' := by
  have hconditions : (findings w.draft).conditions = (findings w'.draft).conditions :=
    h.found.conditions_eq.symm
  refine ⟨?_, [], .nil h.found.reaches, ?_, ?_⟩
  · rw [hconditions]
    exact h.found
  · exact (congrArg Conditions.groups hconditions).symm.trans (List.append_nil _).symm
  · exact h.keys.trans (List.append_nil _).symm

theorem trans {w₁ w₂ : Workspace InsertStatement} (h₁ : InsertProgress rule N T w w₁)
    (h₂ : InsertProgress rule N T w₁ w₂) : InsertProgress rule N T w w₂ := by
  obtain ⟨hfound₁, xs, hxs, hgroups₁, hkeys₁⟩ := h₁
  obtain ⟨hfound₂, ys, hys, hgroups₂, hkeys₂⟩ := h₂
  have hys := hys.mono fun _ _ _ hy => hy.mono fun _ _ => hfound₁.moves.trans
  refine ⟨hfound₁.trans (hfound₂.withConditions _), xs ++ ys, hxs.append hys, ?_, ?_⟩
  · rw [hgroups₂, hgroups₁, List.map_append, List.append_assoc]
  · rw [hkeys₂, hkeys₁, List.flatMap_append, List.append_assoc]

theorem moves (h : InsertProgress rule N T w w') :
    Moves N w.cursor w.draft.findings.placeholders w'.cursor w'.draft.findings.placeholders :=
  h.found.moves

theorem tables_eq (h : InsertProgress rule N False w w') :
    w'.draft.findings.tables = w.draft.findings.tables :=
  h.found.tables_eq

/-- A row has been read, and its keys are recorded. -/
theorem row (w₁ : Workspace InsertStatement) {row : InsertedRow} {form : RowForm} {source : String}
    {before : ℕ} (hw : Progress N T False w.found w₁.found)
    (hrow : OrderedAt (InsertedRow.At (Moves N w.cursor w.draft.findings.placeholders)) w.cursor
      w₁.cursor [row])
    (hkeys : w₁.draft.generatedKeys = w.draft.generatedKeys ++ row.keys rule) :
    InsertProgress rule N T w
      ⟨w₁.cursor, addRow form source before (row.group rule).conditions w₁.draft⟩ := by
  have hconditions : (findings w.draft).conditions = (findings w₁.draft).conditions :=
    hw.conditions_eq.symm
  refine ⟨?_, [row], hrow, ?_, ?_⟩
  · rw [hconditions]
    exact hw
  · exact congrArg (·.groups ++ [row.group rule]) hconditions.symm
  · exact hkeys.trans (congrArg _ (List.append_nil _).symm)

end InsertProgress

instance : Stepwise (InsertProgress rule N T) where
  refl w := .of_kept (Course.refl w)
  trans := .trans
  advance hq h := .of_kept (Course.advance hq h)

theorem Follows.insertProgress {α : Type} {p : Parser InsertStatement α}
    (h : Follows (KeepsRows N T) p) : Follows (InsertProgress rule N T) p :=
  fun _ _ _ hr => .of_kept (h hr)

theorem recordGeneratedKey_ok {key? : Option String} {column : Column} {value : Expression}
    {place : ℕ} {u : Unit} (h : recordGeneratedKey key? column value place w = .ok u w') :
    w' = ⟨w.cursor, { w.draft with generatedKeys := w.draft.generatedKeys ++
      if ShardingRule.isGeneratedKey key? column.name then [⟨column, value⟩] else [] }⟩ := by
  simp only [recordGeneratedKey] at h
  split at h
  · next hkey =>
    split at h
    · rw [if_pos hkey]
      exact modifyDraft_ok.1 h
    · exact (throw_ok.1 h).elim
  · next hkey =>
    obtain ⟨-, rfl⟩ := pure_ok.1 h
    simp [hkey]

theorem recordKeys_ok {key? : Option String} {pairs : List (Column × Expression)} {place : ℕ}
    {u : PUnit} (h : (pairs.forM fun p => recordGeneratedKey key? p.1 p.2 place) w = .ok u w') :
    w' = ⟨w.cursor, { w.draft with generatedKeys := w.draft.generatedKeys ++
      (pairs.filter fun p => ShardingRule.isGeneratedKey key? p.1.name).map fun p =>
        ⟨p.1, p.2⟩ }⟩ := by
  induction pairs generalizing w with
  | nil =>
    obtain ⟨-, rfl⟩ := pure_ok.1 h
    simp
  | cons p pairs ih =>
    obtain ⟨_, w₁, hp, h⟩ := bind_ok.1 h
    obtain rfl := recordGeneratedKey_ok hp
    obtain rfl := ih h
    by_cases hkey : ShardingRule.isGeneratedKey key? p.1.name = true <;> simp [hkey]

theorem recordRow_progress {w₀ : Workspace InsertStatement} {table : String} {place : RowPlace}
    {values : List Expression} {u : Unit} (hw : KeepsRows N T w₀ w)
    (hrow : ∀ columns : List Column,
      OrderedAt (InsertedRow.At (Moves N w₀.cursor w₀.draft.findings.placeholders)) w₀.cursor
        w.cursor [⟨table, columns.zip values⟩])
    (h : recordRow rule table place values w = .ok u w') : InsertProgress rule N T w₀ w' := by
  obtain ⟨_, w₁, hm, h⟩ := bind_ok.1 h
  obtain ⟨s, _, hs, h⟩ := bind_ok.1 h
  obtain ⟨rfl, rfl⟩ := draft_ok.1 hs
  have h₁ : KeepsRows N T w₀ w₁ :=
    Course.trans hw (follows_modifyInsert (editsOnly_shortenColumns _ _) hm)
  obtain rfl := modifyDraft_ok.1 hm
  split at h
  · exact (throw_ok.1 h).elim
  · obtain ⟨_, w₂, hkeys, h⟩ := bind_ok.1 h
    obtain ⟨c, _, hc, h⟩ := bind_ok.1 h
    obtain ⟨-, rfl⟩ := cursor_ok.1 hc
    obtain rfl := modifyDraft_ok.1 h
    have hw₂ := recordKeys_ok hkeys
    have hcursor : w₂.cursor = w.cursor := by rw [hw₂]
    refine .row w₂ ?_ (hcursor ▸ hrow _) ?_
    · rw [hw₂]
      exact h₁.found
    · rw [hw₂]
      exact congrArg (· ++ _) h₁.keys

theorem valuesRow_progress (table : String) :
    Follows (InsertProgress rule N T) (valuesRow rule table) := by
  intro w u w' h
  obtain ⟨t, _, ht, h⟩ := bind_ok.1 h
  obtain ⟨rfl, rfl⟩ := current_ok.1 ht
  obtain ⟨_, _, he, h⟩ := bind_ok.1 h
  obtain ⟨c₀, f, hf, rfl⟩ := onFindings_ok.1 he
  cases modifyDraft_ok.1 hf
  obtain ⟨s, _, hs, h⟩ := bind_ok.1 h
  obtain ⟨-, rfl⟩ := draft_ok.1 hs
  obtain ⟨_, _, hopen, h⟩ := bind_ok.1 h
  obtain ⟨hat, c, hc, rfl⟩ := expect_ok.1 hopen
  obtain ⟨values, w₁, hv, h⟩ := bind_ok.1 h
  obtain ⟨_, _, hclose, h⟩ := bind_ok.1 h
  obtain ⟨hat', c', hc', rfl⟩ := expect_ok.1 hclose
  obtain ⟨c₁, _, hcursor, h⟩ := bind_ok.1 h
  obtain ⟨-, rfl⟩ := cursor_ok.1 hcursor
  have hopened : KeepsRows N T w ⟨c, setFindings w.draft
      ((findings w.draft).addEdit (.insertValues w.cursor.current.start table))⟩ :=
    Course.lift ((Progress.addEdit rfl).trans (.advance (isAt_eq_false hat (by simp)) hc))
  have hread : KeepsRows N T w w₁ :=
    Course.trans hopened (Follows.commaSeparated (.onFindings follows_expression) hv)
  have hclosed : KeepsRows N T w ⟨c', w₁.draft⟩ :=
    Course.trans hread (Course.advance (isAt_eq_false hat' (by simp)) hc')
  have hvalues := Separated.expressionsAt (N := N) (by simp) (fun hrun => by
    obtain ⟨c, f, hx, rfl⟩ := onFindings_ok.1 hrun
    exact ⟨(follows_expression (R := Progress N False False) hx).moves, expression_at hx⟩)
    (separated_run hv)
  have hvalues := hvalues.mono fun _ _ _ h => h.mono fun _ _ => hopened.found.moves.trans
  exact recordRow_progress hclosed
    (fun columns => .single (.refl _) (.values hat hc hvalues hat') (.single hc')) h

theorem valuesClause_progress : Follows (InsertProgress rule N T) (valuesClause rule) := by
  refine follows_grammar.bind fun g => (follows_skipKeywords _).bind fun _ => .ite ?_ (.pure _)
  refine follows_insertTable.bind fun table => ?_
  exact .discard (.commaSeparated (valuesRow_progress table))

/-! ## Assignments -/

theorem insertAssignment_ok {table : String} {condition? : Option Condition}
    (h : insertAssignment rule table w = .ok condition? w') : ∃ name place value w₁ w₂ w₃ w₄,
      columnName w = .ok (name, place) w₁ ∧ onFindings assignmentSign w₁ = .ok () w₂ ∧
        onFindings expression w₂ = .ok value w₃ ∧
        recordGeneratedKey (rule.generatedKey? table) ⟨name, table⟩ value place w₃ = .ok () w₄ ∧
        modifyDraft (fun s => { s with columns := s.columns ++ [⟨name, table⟩] }) w₄ = .ok () w' ∧
        condition? = valueCondition? rule ⟨name, table⟩ value := by
  obtain ⟨⟨name, place⟩, w₁, hname, h⟩ := bind_ok.1 h
  obtain ⟨_, w₂, hsign, h⟩ := bind_ok.1 h
  obtain ⟨value, w₃, hvalue, h⟩ := bind_ok.1 h
  obtain ⟨_, w₄, hkey, h⟩ := bind_ok.1 h
  obtain ⟨_, w₅, hcolumn, h⟩ := bind_ok.1 h
  obtain ⟨rfl, rfl⟩ := pure_ok.1 h
  exact ⟨name, place, value, w₁, w₂, w₃, w₄, hname, hsign, hvalue, hkey, hcolumn, rfl⟩

theorem columnName_ok {name : String} {place : ℕ} (h : columnName w = .ok (name, place) w') :
    ∃ left f, expression w.found = .ok left ⟨w'.cursor, f⟩ ∧ left.columnName? = some name ∧
      w'.draft = setFindings w.draft f := by
  obtain ⟨t, _, ht, h⟩ := bind_ok.1 h
  obtain ⟨-, rfl⟩ := current_ok.1 ht
  obtain ⟨left, _, hx, h⟩ := bind_ok.1 h
  obtain ⟨c, f, hf, rfl⟩ := onFindings_ok.1 hx
  cases hname : left.columnName? with
  | none =>
    rw [hname] at h
    exact (throw_ok.1 h).elim
  | some name' =>
    rw [hname] at h
    obtain ⟨hpair, rfl⟩ := pure_ok.1 h
    cases hpair
    exact ⟨left, f, hf, hname, rfl⟩

theorem assignmentSign_ok {w w' : Workspace Findings} {u : Unit}
    (hsign : assignmentSign w = .ok u w') :
    w.cursor.isAtAny [.symbol .equal, .symbol .colonEqual] = true ∧
      ∃ c, w.cursor.advance = .ok c ∧ w' = ⟨c, w.draft⟩ := by
  obtain ⟨b, w₁, hb, h⟩ := bind_ok.1 hsign
  obtain ⟨hat, hw₁⟩ := skipIf_ok.1 hb
  cases b with
  | true =>
    obtain ⟨-, rfl⟩ := pure_ok.1 h
    exact ⟨hat, hw₁⟩
  | false =>
    obtain rfl := hw₁
    obtain ⟨hequal, -⟩ := expect_ok.1 h
    have hmem : w₁.cursor.isAtAny [.symbol .equal, .symbol .colonEqual] = true :=
      Cursor.isAtAny_iff.2 (List.mem_cons.2 (Or.inl (Cursor.isAt_iff.1 hequal)))
    rw [hmem] at hat
    cases hat

structure AssignmentsRecorded (rule : ShardingRule) (N : Cursor → Prop) (T : Prop) (table : String)
    (w w' : Workspace InsertStatement) (values : List (Column × Expression)) : Prop where
  found : Progress N T False w.found w'.found
  keys : w'.draft.generatedKeys =
    w.draft.generatedKeys ++ (InsertedRow.mk table values).keys rule

theorem AssignmentsRecorded.next {w₁ w₂ : Workspace InsertStatement} {table : String} {c : Cursor}
    {xs ys : List (Column × Expression)} (h₁ : AssignmentsRecorded rule N T table w w₁ xs)
    (hq : w₁.cursor.isAt (.symbol .question) = false) (hc : w₁.cursor.advance = .ok c)
    (h₂ : AssignmentsRecorded rule N T table ⟨c, w₁.draft⟩ w₂ ys) :
    AssignmentsRecorded rule N T table w w₂ (xs ++ ys) := by
  refine ⟨(h₁.found.trans (.advance hq hc)).trans h₂.found, ?_⟩
  rw [h₂.keys, h₁.keys, List.append_assoc]
  simp [InsertedRow.keys]

theorem insertAssignment_at {table : String} {condition? : Option Condition}
    (h : insertAssignment rule table w = .ok condition? w') : ∃ column value,
      AssignmentAt (Moves N w.cursor w.draft.findings.placeholders) w.cursor w'.cursor
        (column, value) ∧
      condition? = valueCondition? rule column value ∧
      AssignmentsRecorded rule N T table w w' [(column, value)] := by
  obtain ⟨name, place, value, w₁, w₂, w₃, w₄, hn, hs, hv, hk, hm, rfl⟩ := insertAssignment_ok h
  obtain ⟨left, f, hleft, hname, hw₁⟩ := columnName_ok hn
  obtain ⟨c₂, f₂, hsign, rfl⟩ := onFindings_ok.1 hs
  obtain ⟨hat, c, hc, hw₂⟩ := assignmentSign_ok hsign
  cases hw₂
  obtain ⟨c₃, f₃, hvalue, rfl⟩ := onFindings_ok.1 hv
  obtain rfl := recordGeneratedKey_ok hk
  obtain rfl := modifyDraft_ok.1 hm
  have h₁ : Progress N T False w.found w₁.found := by
    have hfound : w₁.found = ⟨w₁.cursor, f⟩ := by rw [Workspace.found, hw₁]; rfl
    rw [hfound]
    exact follows_expression hleft
  have h₂ : Progress N T False w.found ⟨c₂, findings w₁.draft⟩ :=
    h₁.trans (.advance (not_question_of_mem (by decide) hat) hc)
  have hplace := (expression_at (N := N) hvalue).mono fun _ _ => h₂.moves.trans
  refine ⟨⟨name, table⟩, value, ⟨expression_at hleft, hname, hat, hc, hplace⟩, rfl,
    h₂.trans (follows_expression hvalue), ?_⟩
  have hkeys : w₁.draft.generatedKeys = w.draft.generatedKeys := by rw [hw₁]; rfl
  by_cases hkey : ShardingRule.isGeneratedKey (rule.generatedKey? table) name = true <;>
    simp [InsertedRow.keys, hkey, hkeys, HasFindings.setFindings]

theorem assignments_at {table : String} {conditions : List (Option Condition)}
    (h : Separated [.symbol .comma] (insertAssignment rule table) w conditions w') :
    ∃ values : List (Column × Expression),
      SeparatedAt (AssignmentAt (Moves N w.cursor w.draft.findings.placeholders))
        (some (.symbol .comma)) w.cursor w'.cursor values ∧
      conditions = values.map (fun v => valueCondition? rule v.1 v.2) ∧
      AssignmentsRecorded rule N T table w w' values := by
  induction h with
  | last hx =>
    obtain ⟨column, value, hplace, rfl, hread⟩ := insertAssignment_at (N := N) (T := T) hx
    exact ⟨[(column, value)], .last hplace, rfl, hread⟩
  | next hx hat hc _ ih =>
    obtain ⟨column, value, hplace, rfl, hread⟩ := insertAssignment_at (N := N) (T := T) hx
    obtain ⟨values, hvalues, rfl, hrest⟩ := ih
    rw [Cursor.isAtAny_singleton] at hat
    have hq := isAt_eq_false (t := .symbol .question) hat (by simp)
    have hmoves := hread.found.trans (.advance hq hc)
    exact ⟨(column, value) :: values, .next hplace (congrArg some (Cursor.isAt_iff.1 hat).symm) hc
      (hvalues.mono fun _ _ _ h => h.mono fun _ _ => hmoves.moves.trans), rfl,
      hread.next hq hc hrest⟩

theorem insertAssignments_progress :
    Follows (InsertProgress rule N T) (insertAssignments rule) := by
  refine follows_grammar.bind fun g => .ite ?_ (.pure _)
  refine (follows_skipKeyword _).bind fun _ => .ite ?_ (.pure _)
  refine Follows.bind (follows_modifyInsert editsOnly_dropColumns).insertProgress fun _ => ?_
  refine follows_insertTable.bind fun table => follows_current.bind fun t => ?_
  intro w u w' h
  obtain ⟨s, _, hs, h⟩ := bind_ok.1 h
  obtain ⟨-, rfl⟩ := draft_ok.1 hs
  obtain ⟨conditions, w₁, hr, h⟩ := bind_ok.1 h
  obtain ⟨c, _, hc, h⟩ := bind_ok.1 h
  obtain ⟨-, rfl⟩ := cursor_ok.1 hc
  obtain rfl := modifyDraft_ok.1 h
  obtain ⟨values, hvalues, rfl, hread⟩ := assignments_at (N := N) (T := T) (separated_run hr)
  have hconditions : (values.map fun v => valueCondition? rule v.1 v.2).filterMap id =
      ((InsertedRow.mk table values).group rule).conditions := by
    rw [List.filterMap_map]
    rfl
  rw [hconditions]
  exact .row w₁ hread.found (.single (.refl _) (.set hvalues) (.refl _)) hread.keys

/-! ## Clauses that keep a relation -/

class RowCourse (R : Workspace InsertStatement → Workspace InsertStatement → Prop) : Prop
    extends FindingsCourse R where
  sign : Follows R (onFindings assignmentSign)
  row {w : Workspace InsertStatement} {c : Cursor} (table : String) :
    w.cursor.isAt (.symbol .leftParen) = true → w.cursor.advance = .ok c →
    R w ⟨c, setFindings w.draft
      ((findings w.draft).addEdit (.insertValues w.cursor.current.start table))⟩
  record {g : InsertStatement → InsertStatement} : (∀ s, (g s).findings.edits = s.findings.edits) →
    (∀ s, (g s).columnListStop = s.columnListStop) → Follows R (modifyDraft g)
  shorten (key? : Option String) (n : ℕ) : Follows R (modifyDraft (shortenColumns key? n))
  drop : Follows R (modifyDraft dropColumns)

class InsertCourse (R : Workspace InsertStatement → Workspace InsertStatement → Prop) : Prop
    extends RowCourse R where
  complete (key : String) :
    Follows R (modifyDraft fun s => if lacksKey key s then addKeyColumn key s else s)

theorem follows_duplicateKeyAssignment
    {R : Workspace InsertStatement → Workspace InsertStatement → Prop} [FindingsCourse R]
    (table : String) : Follows R (duplicateKeyAssignment rule table) := by
  have rest : Follows R (do
      expectSymbol .equal
      let _ ← onFindings expression) := by
    refine (follows_expectSymbol (by decide)).bind fun _ => ?_
    exact FindingsCourse.expression.bind fun _ => .pure _
  refine follows_current.bind fun t => FindingsCourse.expression.bind fun e => ?_
  cases e.columnName? with
  | none => exact (Follows.pure ()).bind fun _ => rest
  | some name => exact .ite ((Follows.throw _).bind fun _ => rest) rest

theorem follows_duplicateKeyClause
    {R : Workspace InsertStatement → Workspace InsertStatement → Prop} [FindingsCourse R] :
    Follows R (duplicateKeyClause rule) := by
  refine follows_grammar.bind fun g => .ite ?_ (.pure _)
  refine (follows_skipKeyword _).bind fun _ => .ite ?_ (.pure _)
  refine (follows_expectKeyword _).bind fun _ => (follows_expectKeyword _).bind fun _ => ?_
  refine (follows_expectKeyword _).bind fun _ => follows_insertTable.bind fun table => ?_
  exact .discard (.commaSeparated (follows_duplicateKeyAssignment table))

section

variable {R : Workspace InsertStatement → Workspace InsertStatement → Prop} [RowCourse R]

theorem follows_recordGeneratedKey (key? : Option String) (column : Column) (value : Expression)
    (place : ℕ) : Follows R (recordGeneratedKey key? column value place) :=
  .ite (.ite (RowCourse.record (fun _ => rfl) fun _ => rfl) (.throw _)) (.pure _)

theorem follows_recordRow (table : String) (place : RowPlace) (values : List Expression) :
    Follows R (recordRow rule table place values) := by
  have keys : ∀ pairs : List (Column × Expression), Follows R (pairs.forM fun p =>
      recordGeneratedKey (rule.generatedKey? table) p.1 p.2 place.start) := by
    intro pairs
    induction pairs with
    | nil => exact .pure _
    | cons p pairs ih => exact (follows_recordGeneratedKey _ _ _ _).bind fun _ => ih
  refine (RowCourse.shorten _ _).bind fun _ => follows_draft.bind fun s => .ite (.throw _) ?_
  refine (keys _).bind fun _ => follows_cursor.bind fun c => ?_
  exact RowCourse.record (fun _ => rfl) fun _ => rfl

theorem follows_valuesRow (table : String) : Follows R (valuesRow rule table) := by
  intro w u w' h
  obtain ⟨t, _, ht, h⟩ := bind_ok.1 h
  obtain ⟨rfl, rfl⟩ := current_ok.1 ht
  obtain ⟨_, w₁, he, h⟩ := bind_ok.1 h
  obtain ⟨_, f, hf, rfl⟩ := onFindings_ok.1 he
  cases modifyDraft_ok.1 hf
  obtain ⟨s, _, hs, h⟩ := bind_ok.1 h
  obtain ⟨rfl, rfl⟩ := draft_ok.1 hs
  obtain ⟨_, w₂, hl, h⟩ := bind_ok.1 h
  obtain ⟨hat, c, hc, rfl⟩ := expect_ok.1 hl
  refine Stepwise.trans (RowCourse.row (R := R) table hat hc) ((?_ : Follows R _) h)
  refine (Follows.commaSeparated FindingsCourse.expression).bind fun values => ?_
  refine (follows_expectSymbol (by decide)).bind fun _ => follows_cursor.bind fun c => ?_
  exact follows_recordRow _ _ _

theorem follows_valuesClause : Follows R (valuesClause rule) := by
  refine follows_grammar.bind fun g => (follows_skipKeywords _).bind fun _ => .ite ?_ (.pure _)
  refine follows_insertTable.bind fun table => ?_
  exact .discard (.commaSeparated (follows_valuesRow table))

theorem follows_insertAssignments : Follows R (insertAssignments rule) := by
  have assignment : ∀ table, Follows R (insertAssignment rule table) := by
    intro table
    refine follows_columnName.bind fun x => RowCourse.sign.bind fun _ => ?_
    refine FindingsCourse.expression.bind fun value => ?_
    refine (follows_recordGeneratedKey _ _ _ _).bind fun _ => ?_
    exact Follows.bind (RowCourse.record (fun _ => rfl) fun _ => rfl) fun _ => .pure _
  refine follows_grammar.bind fun g => .ite ?_ (.pure _)
  refine (follows_skipKeyword _).bind fun _ => .ite ?_ (.pure _)
  refine RowCourse.drop.bind fun _ => follows_insertTable.bind fun table => ?_
  refine follows_current.bind fun t => follows_draft.bind fun s => ?_
  refine (Follows.commaSeparated (assignment table)).bind fun cs => ?_
  exact follows_cursor.bind fun c => RowCourse.record (fun _ => rfl) fun _ => rfl

end

section

variable {R : Workspace InsertStatement → Workspace InsertStatement → Prop} [InsertCourse R]

theorem follows_completeKey : Follows R (completeKey rule) := by
  refine follows_insertTable.bind fun table => ?_
  cases rule.generatedKey? table with
  | none => exact .pure _
  | some key => exact InsertCourse.complete key

theorem follows_insertionRows : Follows R (do
    valuesClause rule
    insertAssignments rule
    duplicateKeyClause rule
    completeKey rule) := by
  refine follows_valuesClause.bind fun _ => follows_insertAssignments.bind fun _ => ?_
  exact follows_duplicateKeyClause.bind fun _ => follows_completeKey

end

/-! ## The statement -/

theorem completeKey_progress : Follows (KeepsRows N T) (completeKey rule) := by
  refine follows_insertTable.bind fun table => ?_
  cases rule.generatedKey? table with
  | none => exact .pure _
  | some key =>
    refine follows_modifyInsert fun s => ?_
    split
    · exact editsOnly_addKeyColumn key s
    · exact ⟨rfl, s.findings.edits, fun _ h => Or.inl h, rfl⟩

theorem insertion_progress {catalog : Catalog} {c : Cursor} {u : Unit} (hT : T)
    (hP : InsertPlaces P) (hq : w.cursor.current.type ≠ .symbol .question)
    (hc : w.cursor.advance = .ok c) (hw : P .beforeInto c)
    (h : insertion rule catalog w = .ok u w') : InsertProgress rule (Names P) T w w' := by
  obtain ⟨_, _, ha, h⟩ := bind_ok.1 h
  obtain ⟨c', hc', rfl⟩ := advance_ok.1 ha
  rw [hc] at hc'
  cases hc'
  obtain ⟨_, w₁, hi, h⟩ := bind_ok.1 h
  have h₁ : KeepsRows (Names P) T w ⟨c, w.draft⟩ :=
    Course.advance (by simpa [Cursor.isAt] using hq) hc
  have h₂ := Course.trans h₁ (intoClause_progress hT hP hw hi)
  have rest : Follows (InsertProgress rule (Names P) T) (do
      columnList rule catalog
      refuseIf [.keyword .SELECT, .symbol .leftParen]
      valuesClause rule
      insertAssignments rule
      duplicateKeyClause rule
      completeKey rule) := by
    refine (columnList_progress catalog).insertProgress.bind fun _ => follows_refuseIf.bind fun _ => ?_
    refine valuesClause_progress.bind fun _ => insertAssignments_progress.bind fun _ => ?_
    refine Follows.insertProgress ?_
    exact follows_duplicateKeyClause.bind fun _ => completeKey_progress
  exact (InsertProgress.of_kept h₂).trans (rest h)

end SqlFront

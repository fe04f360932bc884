import SqlFront.Proofs.Wording.Clause
import SqlFront.Reading.Change

/-!
# Rows of the same words

Behind its column list an INSERT is read in the same way wherever it stands: the rows, the
assignments and the generated key depend on the columns that have been read, and not on how the
list came about.
-/

set_option autoImplicit false

namespace SqlFront

open SqlFront.Parser SqlFront.Clause SqlFront.Reading

variable {P : Pairing} {rule : ShardingRule} {table : String} {σ τ α : Type}
  {D : InsertStatement → InsertStatement → Prop}

/-! ## What corresponds -/

/-- Insertions that differ at most in their edits and in the place of the column list. -/
structure SameInsertion (s t : InsertStatement) : Prop where
  found : SameFindings s.findings t.findings
  columns : s.columns = t.columns
  keys : s.generatedKeys = t.generatedKeys
  rows : s.rows = t.rows
  index : s.generatedKeyIndex? = t.generatedKeyIndex?

structure ListedAlike (q : ℕ) (s t : InsertStatement) : Prop extends SameInsertion s t where
  stop : t.columnListStop = q

structure Pairing.Verbatim (P : Pairing) : Prop where
  texts {x y : String} : P.texts x y → x = y

structure Pairing.Unedited (P : Pairing) : Prop extends P.Verbatim where
  edits (es fs : List Edit) : P.edits es fs

variable {q : ℕ}

theorem Pairing.Unedited.drafts (hP : P.Unedited) : Drafts P (ListedAlike q) where
  found h := ⟨h.found, hP.edits _ _⟩
  set h hf := ⟨⟨hf.same, h.columns, h.keys, h.rows, h.index⟩, h.stop⟩

theorem Pairing.Verbatim.value (hP : P.Verbatim) {e e' : Expression} (h : P.Value e e') :
    e = e' := by
  cases h with
  | same => rfl
  | text h => rw [hP.texts h]

theorem Pairing.Verbatim.expression (hP : P.Verbatim) (hD : Drafts P D) : Agrees P D Eq
    (onFindings expression : Parser InsertStatement Expression) (onFindings expression) :=
  (Agrees.onFindings hD agrees_expression).mono fun _ _ => hP.value

/-! ## The generated key -/

theorem SameFindings.removeEdits {f g : Findings} (h : SameFindings f g) (es fs : List Edit) :
    SameFindings { f with edits := es } { g with edits := fs } :=
  ⟨h.tables, h.conditions, h.placeholders⟩

theorem ListedAlike.removeKeyColumn {s t : InsertStatement} (key : String)
    (h : ListedAlike q s t) : ListedAlike q (removeKeyColumn key s) (removeKeyColumn key t) := by
  unfold Clause.removeKeyColumn
  rw [h.columns]
  dsimp only
  split
  · exact h
  · exact ⟨⟨h.found.removeEdits _ _, rfl, h.keys, h.rows, rfl⟩, h.stop⟩

theorem ListedAlike.shortenColumns {s t : InsertStatement} (key? : Option String) (k : ℕ)
    (h : ListedAlike q s t) : ListedAlike q (shortenColumns key? k s) (shortenColumns key? k t) := by
  unfold Clause.shortenColumns
  rw [h.columns]
  cases key? with
  | none => exact h
  | some key =>
    simp only
    split
    · exact h.removeKeyColumn key
    · exact h

theorem ListedAlike.addRow {s t : InsertStatement} (form : RowForm) (source : String) (before : ℕ)
    (conditions : List Condition) (h : ListedAlike q s t) :
    ListedAlike q (addRow form source before conditions s)
      (addRow form source before conditions t) := by
  refine ⟨⟨⟨h.found.tables, ?_, h.found.placeholders⟩, h.columns, h.keys, ?_, h.index⟩, h.stop⟩
  · exact congrArg (Conditions.push · ⟨conditions⟩) h.found.conditions
  · change s.rows ++ [_] = t.rows ++ [_]
    rw [h.rows, h.found.placeholders]

theorem agrees_insertTable (hD : Drafts P D) : Agrees P D Eq insertTable insertTable := by
  refine agrees_draft.bind fun s t h => ?_
  have htables : s.findings.tables = t.findings.tables := (hD.found h).same.tables
  rw [htables]
  cases t.findings.tables.singleName? with
  | some name => exact .pure rfl
  | none => exact .throw

theorem agrees_recordGeneratedKey {key? : Option String} {c : Column} {e : Expression}
    {p p' : ℕ} : Agrees P (ListedAlike q) Eq (recordGeneratedKey key? c e p)
      (recordGeneratedKey key? c e p') := by
  refine .ite (.ite (agrees_modifyDraft fun s t h => ?_) .throw) (.pure rfl)
  exact ⟨⟨h.found, h.columns, congrArg (· ++ _) h.keys, h.rows, h.index⟩, h.stop⟩

/-! ## Rows -/

theorem Agrees.forM {D : σ → τ → Prop} {xs : List α} {f : α → Parser σ Unit}
    {g : α → Parser τ Unit} (h : ∀ x, Agrees P D Eq (f x) (g x)) :
    Agrees P D Eq (xs.forM f) (xs.forM g) := by
  induction xs with
  | nil => exact .pure rfl
  | cons x xs ih =>
    rw [List.forM_eq_forM, List.forM_eq_forM, List.forM_cons, List.forM_cons]
    exact (h x).next fun _ => ih

structure SamePlace (P : Pairing) (r r' : RowPlace) : Prop where
  start : P.places r.start r'.start
  stop : P.places r.stop r'.stop
  before : r.before = r'.before

def rowOfValues (table : String) : Parser InsertStatement (RowPlace × List Expression) := do
  let start := (← current).start
  onFindings <| modifyDraft fun f => f.addEdit (.insertValues start table)
  let before := (← draft).findings.placeholders
  expectSymbol .leftParen
  let values ← commaSeparated (onFindings expression)
  expectSymbol .rightParen
  return (⟨start, (← cursor).previousStop, before⟩, values)

theorem valuesRow_eq : valuesRow rule table =
    rowOfValues table >>= fun r => recordRow rule table r.1 r.2 := by
  simp [valuesRow, rowOfValues]

theorem agrees_rowOfValues (hP : P.Verbatim) (hD : Drafts P D) :
    Agrees P D (fun r r' => SamePlace P r.1 r'.1 ∧ r.2 = r'.2) (rowOfValues table)
      (rowOfValues table) := by
  refine agrees_current.bind fun t u htu => ?_
  refine Agrees.next (Agrees.onFindings hD (agrees_addEdit rfl rfl)) fun _ => ?_
  refine agrees_draft.bind fun s s' hs => agrees_expect.next fun _ => ?_
  refine ((hP.expression hD).separated).bind fun es es' hes => agrees_expect.next fun _ => ?_
  refine agrees_cursor.bind fun c c' hc => .pure ⟨⟨htu.2, P.stop hc, ?_⟩, ?_⟩
  · exact (hD.found hs).same.placeholders
  · exact List.forall₂_eq_eq_eq ▸ hes

theorem agrees_recordValues (hP : P.Verbatim) {r r' : RowPlace} (hr : SamePlace P r r')
    (pairs : List (Column × Expression)) :
    Agrees P (ListedAlike q) Eq (recordValues rule table r pairs)
      (recordValues rule table r' pairs) := by
  refine Agrees.next (.forM fun _ => agrees_recordGeneratedKey) fun _ => ?_
  refine agrees_cursor.bind fun c c' hc => ?_
  rw [hP.texts (P.slice hc hr.start hr.stop), hr.before]
  exact agrees_modifyDraft fun s t h => h.addRow _ _ _ _

def recordFor (rule : ShardingRule) (table : String) (place : RowPlace)
    (values : List Expression) : Parser InsertStatement Unit := do
  let columns := (← draft).columns
  if !columns.isEmpty && columns.length != values.length then
    throw (.malformed place.start (.rowLength columns.length values.length))
  else recordValues rule table place (columns.zip values)

theorem recordRow_eq (place : RowPlace) (values : List Expression) :
    recordRow rule table place values =
      modifyDraft (shortenColumns (rule.generatedKey? table) values.length) >>= fun _ =>
        recordFor rule table place values := rfl

theorem agrees_recordFor (hP : P.Verbatim) {r r' : RowPlace} (hr : SamePlace P r r')
    (values : List Expression) : Agrees P (ListedAlike q) Eq (recordFor rule table r values)
      (recordFor rule table r' values) := by
  refine agrees_draft.bind fun s t h => ?_
  rw [h.columns]
  exact .ite .throw (agrees_recordValues hP hr _)

theorem agrees_valuesRow (hP : P.Unedited) :
    Agrees P (ListedAlike q) Eq (valuesRow rule table) (valuesRow rule table) := by
  rw [valuesRow_eq]
  refine (agrees_rowOfValues hP.toVerbatim hP.drafts).bind fun r r' ⟨hr, hes⟩ => ?_
  rw [hes, recordRow_eq, recordRow_eq]
  refine (agrees_modifyDraft fun s t h => ?_).next fun _ => agrees_recordFor hP.toVerbatim hr _
  exact h.shortenColumns _ _

/-! ## Assignments -/

theorem agrees_columnName (hP : P.Unedited) :
    Agrees P (ListedAlike q) (fun n n' => n.1 = n'.1) columnName columnName := by
  refine agrees_current.bind fun _ _ _ => (hP.expression hP.drafts).next fun e => ?_
  cases e.columnName? with
  | some name => exact .pure rfl
  | none => exact .throw

theorem agrees_assignmentSign : Agrees P P.Found Eq assignmentSign assignmentSign :=
  agrees_skipIf.next fun _ => .ite agrees_expect (.pure rfl)

theorem agrees_insertAssignment (hP : P.Unedited) : Agrees P (ListedAlike q) Eq
    (insertAssignment rule table) (insertAssignment rule table) := by
  refine (agrees_columnName hP).bind fun n n' hn => ?_
  refine Agrees.next (Agrees.onFindings hP.drafts agrees_assignmentSign) fun _ => ?_
  refine (hP.expression hP.drafts).next fun e => ?_
  rw [hn]
  refine agrees_recordGeneratedKey.next fun _ => Agrees.next ?_ fun _ => .pure rfl
  refine agrees_modifyDraft fun s t h => ?_
  exact ⟨⟨h.found, congrArg (· ++ _) h.columns, h.keys, h.rows, h.index⟩, h.stop⟩

theorem agrees_insertAssignments (hP : P.Unedited) : Agrees P (ListedAlike q) Eq
    (insertAssignments rule) (insertAssignments rule) := by
  refine agrees_grammar.next fun _ => .ite (agrees_skipIf.next fun _ => .ite ?_ ?_) (.pure rfl)
  · refine Agrees.next (agrees_modifyDraft fun s t h => ?_) fun _ => ?_
    · exact ⟨⟨h.found.removeEdits _ _, rfl, h.keys, h.rows, rfl⟩, h.stop⟩
    refine (agrees_insertTable hP.drafts).next fun name => ?_
    refine agrees_current.bind fun t u htu => agrees_draft.bind fun s s' hs => ?_
    refine (Agrees.separated (agrees_insertAssignment hP)).bind fun cs cs' hcs => ?_
    refine agrees_cursor.bind fun c c' hc => ?_
    rw [hP.texts (P.slice hc htu.2 (P.stop hc)), hs.found.placeholders,
      (List.forall₂_eq_eq_eq ▸ hcs : cs = cs')]
    exact agrees_modifyDraft fun s t h => h.addRow _ _ _ _
  · exact .pure rfl

theorem agrees_duplicateKeyAssignment (hP : P.Unedited) : Agrees P (ListedAlike q) Eq
    (duplicateKeyAssignment rule table) (duplicateKeyAssignment rule table) := by
  refine agrees_current.bind fun _ _ _ => (hP.expression hP.drafts).next fun e => ?_
  have hrest : Agrees P (ListedAlike q) Eq (do
      expectSymbol .equal
      let _ ← onFindings expression : Parser InsertStatement Unit) (do
      expectSymbol .equal
      let _ ← onFindings expression) :=
    agrees_expect.next fun _ => (hP.expression hP.drafts).next fun _ => .pure rfl
  cases e.columnName? with
  | some name => exact .ite (Agrees.throw.next fun _ => hrest) hrest
  | none => exact hrest

theorem agrees_duplicateKeyClause (hP : P.Unedited) : Agrees P (ListedAlike q) Eq
    (duplicateKeyClause rule) (duplicateKeyClause rule) := by
  refine agrees_grammar.next fun _ => .ite (agrees_skipIf.next fun _ => .ite ?_ (.pure rfl))
    (.pure rfl)
  refine agrees_expect.next fun _ => agrees_expect.next fun _ => agrees_expect.next fun _ => ?_
  refine (agrees_insertTable hP.drafts).next fun name => ?_
  exact .discard (.separated (agrees_duplicateKeyAssignment hP))

/-! ## The end of the statement -/

theorem SameInsertion.lacksKey {s t : InsertStatement} (h : SameInsertion s t) (key : String) :
    lacksKey key s = lacksKey key t := by
  unfold Reading.lacksKey
  rw [h.columns, h.keys, h.rows, h.index]

theorem agrees_completeKey (hP : P.Unedited) :
    Agrees P (ListedAlike q) Eq (completeKey rule) (completeKey rule) := by
  refine (agrees_insertTable hP.drafts).next fun name => ?_
  cases rule.generatedKey? name with
  | none => exact .pure rfl
  | some key =>
    refine agrees_modifyDraft fun s t h => ?_
    rw [h.lacksKey]
    split
    · exact ⟨⟨h.found.removeEdits _ _, h.columns, h.keys, h.rows, h.index⟩, h.stop⟩
    · exact h

end SqlFront

import SqlFront.Proofs.Insertion.RowList
import SqlFront.Proofs.Insertion.Target
import SqlFront.Proofs.Progress.Statement

/-!
# Statements of INSERT

A text that begins with INSERT is read as an INSERT, clause by clause. Clauses that do not come are
passed without a change.
-/

set_option autoImplicit false

namespace SqlFront

open SqlFront.Parser SqlFront.Clause SqlFront.Reading

variable {d : Dialect} {rule : ShardingRule} {catalog : Catalog}
  {w v : Workspace InsertStatement} {ts more : List Token}

/-! ## Clauses that do not come -/

theorem values_not_refused {t : Token}
    (h : t.type ∈ keywordTypes (.VALUES :: d.grammar.valuesSynonyms)) :
    t.type ∉ [TokenType.keyword .SELECT, .symbol .leftParen] := by
  generalize t.type = x at h
  revert x
  cases d <;> decide

theorem achieves_listEnd {values : Token}
    (hvalues : values.type ∈ keywordTypes (.VALUES :: d.grammar.valuesSynonyms))
    (hw : w.cursor.Passes (values :: ts) more) :
    Achieves w (refuseIf [.keyword .SELECT, .symbol .leftParen]) fun _ v => v = w := by
  have hplain : frontType (values :: ts ++ more) ∉
      [TokenType.keyword .SELECT, .symbol .leftParen] := by
    rw [List.cons_append, frontType_cons]
    exact values_not_refused hvalues
  have hat := hw.isAtAny [TokenType.keyword .SELECT, .symbol .leftParen]
  rw [List.contains_eq_mem, decide_eq_false hplain] at hat
  have hrefuse : refuseIf [.keyword .SELECT, .symbol .leftParen] w = .ok () w :=
    refuseIf_ok.2 ⟨hat, rfl⟩
  exact (settles_of_ok hrefuse).2 rfl

theorem achieves_noDuplicates (hon : w.cursor.current.type ≠ .keyword .ON) :
    Achieves w (duplicateKeyClause rule) fun _ v => v = w := by
  unfold duplicateKeyClause
  apply settles_grammar.2
  split
  · apply settles_notAt (by simpa [keywordTypes] using hon)
    exact Settles.pure rfl
  · exact Settles.pure rfl

theorem achieves_noAssignments (hset : w.cursor.current.type ≠ .keyword .SET) :
    Achieves w (insertAssignments rule) fun _ v => v = w := by
  unfold insertAssignments
  apply settles_grammar.2
  split
  · apply settles_notAt (by simpa [keywordTypes] using hset)
    exact Settles.pure rfl
  · exact Settles.pure rfl

/-! ## Up to VALUES -/

def insertionHead (rule : ShardingRule) (catalog : Catalog) : Parser InsertStatement Unit := do
  advance
  intoClause
  columnList rule catalog
  refuseIf [.keyword .SELECT, .symbol .leftParen]

def insertionBody (rule : ShardingRule) : Parser InsertStatement Unit := do
  valuesClause rule
  insertAssignments rule
  duplicateKeyClause rule
  completeKey rule

def insertionEnd (rule : ShardingRule) : Parser InsertStatement Unit := do
  insertAssignments rule
  duplicateKeyClause rule
  completeKey rule

theorem insertionBody_split (rule : ShardingRule) :
    insertionBody rule = valuesClause rule >>= fun _ => insertionEnd rule := rfl

theorem insertion_split (rule : ShardingRule) (catalog : Catalog) :
    insertion rule catalog = insertionHead rule catalog >>= fun _ => insertionBody rule := by
  simp only [insertion, insertionHead, insertionBody, bind_assoc]

theorem insertionHead_reaches (h : insertionHead rule catalog w = .ok () v) :
    w.cursor.Reaches v.cursor := by
  obtain ⟨_, w₁, ha, h⟩ := bind_ok.1 h
  obtain ⟨c, hc, rfl⟩ := advance_ok.1 ha
  obtain ⟨_, w₂, hi, h⟩ := bind_ok.1 h
  have hinto := intoClause_progress (T := True) trivial insertPlaces_all trivial hi
  have hrest : Follows (KeepsRows (fun _ => True) True) (do
      columnList rule catalog
      refuseIf [.keyword .SELECT, .symbol .leftParen]) :=
    (columnList_progress catalog).bind fun _ => follows_refuseIf
  have htarget : c.Reaches w₂.cursor := hinto.found.reaches
  exact (Cursor.Reaches.single hc).trans (htarget.trans (hrest h).found.reaches)

/-! ## Texts -/

theorem settles_insertWord {sql : String} {c : Cursor}
    {Q : Unit → Workspace InsertStatement → Prop} {F : Fault → Prop}
    (hc : (Cursor.ofText d sql).advance = .ok c) (hins : c.current.type = .keyword .INSERT)
    (h : Settles ⟨c, {}⟩ (insertion rule catalog) Q F) :
    Settles ⟨Cursor.ofText d sql, ()⟩ (text rule catalog)
      (fun s _ => ∃ v, Q () v ∧ s = .insert v.draft) F := by
  have hadvance : Parser.advance (⟨Cursor.ofText d sql, ()⟩ : Workspace Unit) = .ok () ⟨c, ()⟩ :=
    Parser.advance_ok.2 ⟨c, hc, rfl⟩
  unfold text
  apply (settles_bind_ok hadvance).2
  unfold statement
  apply settles_current.2
  rw [hins]
  unfold insertStatement
  apply settles_inside.2
  exact h.mono fun _ v hv => ⟨v, hv, rfl⟩

/-- A text that begins with INSERT is read as an INSERT. -/
theorem settles_insertText {sql : String} {ins : Token}
    {Q : Unit → Workspace InsertStatement → Prop} {F : Fault → Prop}
    (hts : (TokenStream.ofText d sql.toList).tokens = ins :: ts)
    (hins : ins.type = .keyword .INSERT)
    (h : ∀ c, (Cursor.ofText d sql).advance = .ok c →
      Settles ⟨c, {}⟩ (insertion rule catalog) Q F) :
    Settles ⟨Cursor.ofText d sql, ()⟩ (text rule catalog)
      (fun s _ => ∃ v, Q () v ∧ s = .insert v.draft) F := by
  obtain ⟨c, hc, hfaces⟩ := Cursor.ofText_first hts
  exact settles_insertWord hc (hfaces.current ▸ hins) (h c hc)

theorem parse_of_settles {sql : String} {Q : Statement → Workspace Unit → Prop} {F : Fault → Prop}
    (h : Settles ⟨Cursor.ofText d sql, ()⟩ (text rule catalog) Q F) :
    (∃ s v, Q s v ∧ parse d rule catalog sql =
      .ok (s.mapFindings fun f => { f with edits := Edit.sorted f.edits })) ∨
      ∃ f, F f ∧ parse d rule catalog sql = .error f := by
  unfold parse
  unfold Settles at h
  cases hr : text rule catalog ⟨Cursor.ofText d sql, ()⟩ with
  | ok s v =>
    rw [hr] at h
    exact Or.inl ⟨s, v, h, rfl⟩
  | error f v =>
    rw [hr] at h
    exact Or.inr ⟨f, h, rfl⟩

def InsertStatement.sorted (s : InsertStatement) : InsertStatement :=
  { s with findings := { s.findings with edits := Edit.sorted s.findings.edits } }

/-- A text that begins with INSERT is accepted with an INSERT, or it is not accepted. -/
theorem parse_insertion (rule : ShardingRule) (catalog : Catalog) {sql : String} {ins : Token} {tail : List Token}
    {Q : Unit → Workspace InsertStatement → Prop} {F : Fault → Prop}
    (hts : (TokenStream.ofText d sql.toList).tokens = ins :: ts ++ tail)
    (hins : ins.type = .keyword .INSERT)
    (hend : tail = [] → ∃ t, (TokenStream.ofText d sql.toList).ending = .ok t)
    (h : ∀ c, c.dialect = d → c.Passes (ins :: ts) tail →
      Settles ⟨c, {}⟩ (insertion rule catalog) Q F) :
    (∃ v, Q () v ∧ parse d rule catalog sql = .ok (.insert v.draft.sorted)) ∨
      ∃ f, F f ∧ parse d rule catalog sql = .error f := by
  have hread : ∀ c, (Cursor.ofText d sql).advance = .ok c →
      Settles ⟨c, {}⟩ (insertion rule catalog) Q F := by
    intro c hc
    exact h c (Cursor.advance_dialect hc) (Cursor.ofText_passes hts hend hc)
  rcases parse_of_settles (settles_insertText hts hins hread) with ⟨s, -, ⟨v, hv, rfl⟩, hp⟩ | hf
  · exact Or.inl ⟨v, hv, hp⟩
  · exact Or.inr hf

def insertion? : Statement → Option InsertStatement
  | .insert i => some i
  | _ => none

theorem eq_insert_of_insertion? {s : Statement} {i : InsertStatement} (h : insertion? s = some i) :
    s = .insert i := by
  cases s <;> simp_all [insertion?]

end SqlFront

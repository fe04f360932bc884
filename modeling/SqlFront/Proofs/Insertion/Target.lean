import SqlFront.Clause.InsertTarget
import SqlFront.Proofs.Condition.Comparison

/-!
# Target and columns of INSERT

The words up to the column list record the table. The columns of a written list are recorded in
their order, each with the name of the table.
-/

set_option autoImplicit false

namespace SqlFront

open SqlFront.Parser SqlFront.Clause

variable {w v : Workspace InsertStatement} {t : Token} {ts us more : List Token}
  {name : String} {cols : List Column}

structure TargetRead (name : String) (cols : List Column) (v : Workspace InsertStatement) :
    Prop where
  tables : v.draft.findings.tables = ⟨[⟨name, none⟩]⟩
  columns : v.draft.columns = cols
  keys : v.draft.generatedKeys = []
  conditions : v.draft.findings.conditions = .empty
  placeholders : v.draft.findings.placeholders = 0

theorem TargetRead.congr (h : TargetRead name cols w) (hd : v.draft = w.draft) :
    TargetRead name cols v := by
  cases h
  constructor <;> rw [hd] <;> assumption

theorem insertTable_run (hname : w.draft.findings.tables.singleName? = some name) :
    insertTable w = .ok name w := by
  unfold insertTable
  apply bind_ok.2
  refine ⟨w.draft, w, rfl, ?_⟩
  rw [hname]
  rfl

theorem settles_singleTable {β : Type} {f : String → Parser InsertStatement β}
    {Q : β → Workspace InsertStatement → Prop} {F : Fault → Prop}
    (hname : w.draft.findings.tables.singleName? = some name) (h : Settles w (f name) Q F) :
    Settles w (insertTable >>= f) Q F :=
  (settles_bind_ok (insertTable_run hname)).2 h

theorem settles_insertTable {β : Type} {f : String → Parser InsertStatement β}
    {Q : β → Workspace InsertStatement → Prop} {F : Fault → Prop}
    (ht : w.draft.findings.tables = ⟨[⟨name, none⟩]⟩) (h : Settles w (f name) Q F) :
    Settles w (insertTable >>= f) Q F :=
  settles_singleTable (by rw [ht]; rfl) h

/-! ## The table -/

theorem settles_bareTable {w : Workspace Findings} (hw : w.cursor.Passes (t :: ts) more)
    (ht : frontType (ts ++ more) ≠ .symbol .dot) (hnone : w.draft.tables = .empty) :
    Achieves w bareTable fun _ v => v.cursor.Passes ts more ∧ v.draft =
      { w.draft with
        tables := ⟨[⟨unquoted t.literals, none⟩]⟩
        edits := w.draft.edits ++ [.table t.start t.literals] } := by
  have htoken : Achieves w tableToken fun x v => x = t ∧ Past w ts more v := by
    unfold tableToken
    apply settles_current.2
    rw [hw.current]
    apply (achieves_advance hw).bind
    intro _ v hv
    apply settles_isAt.2
    rw [hv.passes.isAt, beq_eq_false_iff_ne.2 ht]
    exact Settles.pure ⟨rfl, hv⟩
  unfold bareTable
  apply htoken.bind
  rintro x v ⟨rfl, hv⟩
  refine ⟨hv.passes, ?_⟩
  have htables : v.draft.tables = .empty := by rw [hv.draft, hnone]
  change (v.draft.addEdit _).addTable _ = _
  unfold Findings.addEdit Findings.addTable
  simp only [htables]
  rw [hv.draft]
  rfl

theorem into_not_refused (d : Dialect) :
    TokenType.keyword .INTO ∉ keywordTypes d.grammar.refusedBeforeInto := by
  cases d <;> decide

def targetDraft (table : Token) : InsertStatement :=
  { findings :=
      { kind := .dml
        tables := ⟨[⟨unquoted table.literals, none⟩]⟩
        edits := [.table table.start table.literals] } }

theorem targetDraft_read {table : Token} (hv : v.draft = targetDraft table) :
    TargetRead (unquoted table.literals) [] v := by
  constructor <;> rw [hv] <;> rfl

def wordsBehindTable (words : List Keyword) : Parser InsertStatement Unit :=
  whileM (skipIf (keywordTypes words)) do
    let _ ← onFindings skipParentheses

theorem settles_tableWords {into table : Token} {words : List Keyword}
    {Q : Unit → Workspace InsertStatement → Prop} {F : Fault → Prop}
    (hinto : into.type = .keyword .INTO) (hdot : frontType (ts ++ more) ≠ .symbol .dot)
    (hw : w.cursor.Passes (into :: table :: ts) more) (hd : w.draft = {})
    (h : ∀ v, v.cursor.Passes ts more → v.draft = targetDraft table →
      Settles v (wordsBehindTable words) Q F) :
    Settles w (do
      expectKeyword .INTO
      onFindings bareTable
      wordsBehindTable words) Q F := by
  apply (achieves_expect hw hinto).bind
  intro _ v₁ h₁
  have hfindings : v₁.draft.findings.tables = .empty := by
    rw [h₁.draft, hd]
  have htable : Achieves v₁ (onFindings bareTable) fun _ v => v.cursor.Passes ts more ∧
      v.draft = targetDraft table := by
    apply settles_onFindings.2
    apply (settles_bareTable (w := ⟨v₁.cursor, v₁.draft.findings⟩) h₁.passes hdot hfindings).mono
    rintro _ v ⟨hv, hvd⟩
    refine ⟨hv, ?_⟩
    rw [hvd, h₁.draft, hd]
    rfl
  apply htable.bind
  rintro _ v₂ ⟨hv₂, h₂⟩
  exact h v₂ hv₂ h₂

theorem settles_intoTable {into table : Token} {Q : Unit → Workspace InsertStatement → Prop}
    {F : Fault → Prop} (hinto : into.type = .keyword .INTO)
    (hdot : frontType (ts ++ more) ≠ .symbol .dot)
    (hw : w.cursor.Passes (into :: table :: ts) more) (hd : w.draft = {})
    (h : ∀ v, v.cursor.Passes ts more → v.draft = targetDraft table →
      Settles v (wordsBehindTable w.cursor.dialect.grammar.betweenTableAndValues) Q F) :
    Settles w intoClause Q F := by
  have hat : frontType (into :: table :: ts ++ more) = .keyword .INTO := hinto
  unfold intoClause
  apply settles_grammar.2
  apply settles_noRefusal hw (hat ▸ into_not_refused _)
  have hskip : Achieves w (skipUntil [.keyword .INTO]) fun _ v => v = w := by
    apply achieves_noWhile
    apply settles_isAtAny.2
    apply settles_cursor.2
    rw [hw.isAtAny, hat]
    exact Settles.pure ⟨rfl, rfl⟩
  apply hskip.bind
  rintro _ v rfl
  exact settles_tableWords hinto hdot hw hd h

theorem achieves_intoClause {into table : Token} (hinto : into.type = .keyword .INTO)
    (hdot : frontType (ts ++ more) ≠ .symbol .dot)
    (hbetween : frontType (ts ++ more) ∉
      keywordTypes w.cursor.dialect.grammar.betweenTableAndValues)
    (hw : w.cursor.Passes (into :: table :: ts) more) (hd : w.draft = {}) :
    Achieves w intoClause fun _ v => v.cursor.Passes ts more ∧ v.draft = targetDraft table := by
  apply settles_intoTable hinto hdot hw hd
  intro v hv h
  have hplain : v.cursor.isAtAny
      (keywordTypes w.cursor.dialect.grammar.betweenTableAndValues) = false := by
    rw [hv.isAtAny, List.contains_eq_mem]
    exact decide_eq_false hbetween
  have hstop : Achieves v (skipIf (keywordTypes w.cursor.dialect.grammar.betweenTableAndValues))
      fun b x => b = false ∧ x = v := (settles_of_ok (skipIf_ok.2 ⟨hplain, rfl⟩)).2 ⟨rfl, rfl⟩
  apply (achieves_noWhile hstop).mono
  rintro _ _ rfl
  exact ⟨hv, h⟩

/-- A parenthesis behind the table opens the column list, in every dialect. -/
theorem achieves_intoBeforeList {into table l : Token} (hinto : into.type = .keyword .INTO)
    (hl : l.type = .symbol .leftParen) (hw : w.cursor.Passes (into :: table :: l :: ts) more)
    (hd : w.draft = {}) :
    Achieves w intoClause fun _ v =>
      v.cursor.Passes (l :: ts) more ∧ v.draft = targetDraft table := by
  have hdot : frontType (l :: ts ++ more) ≠ .symbol .dot := by simp [hl]
  have hbetween : frontType (l :: ts ++ more) ∉
      keywordTypes w.cursor.dialect.grammar.betweenTableAndValues := by
    simp [hl, keywordTypes]
  exact achieves_intoClause hinto hdot hbetween hw hd

/-! ## The columns -/

def listedColumn (table : String) (c : Option Token × Token) : Column :=
  ⟨columnTitle c.1 c.2, table⟩

def SpellsListed (c : Option Token × Token) (ts : List Token) : Prop :=
  Comparison.SpellsColumn c.1 c.2 ts

def listedItem (key? : Option String) (table : String) : Parser InsertStatement Unit := do
  let c ← columnName
  modifyDraft (addColumn key? ⟨c.1, table⟩)

theorem writtenColumns_eq (rule : ShardingRule) (table : String) :
    writtenColumns rule table = (do
      discard <| commaSeparated (listedItem (rule.generatedKey? table) table)
      let stop := (← current).start
      modifyDraft fun s => { s with columnListStop := stop }
      expectSymbol .rightParen) := rfl

theorem SpellsListed.isName {c : Option Token × Token} (h : SpellsListed c ts) :
    c.2.isName = true := by
  obtain ⟨owner?, name⟩ := c
  cases h with
  | alone hn => exact hn
  | owned _ _ hn => exact hn

theorem settles_columnName {c : Option Token × Token} {F : Fault → Prop}
    (hs : SpellsListed c ts) (hm : endsOperand (us ++ more) = true)
    (hshape : ∀ place cause, F (.malformed place cause))
    (hw : w.cursor.Passes (ts ++ us) more) (hI : TargetRead name cols w) :
    Settles w columnName (fun p v => p.1 = columnTitle c.1 c.2 ∧ v.cursor.Passes us more ∧
      TargetRead name cols v) F := by
  unfold columnName
  apply settles_current.2
  have hread : Achieves w (onFindings expression) fun e v => e = columnExpression c.1 c.2 ∧
      v.cursor.Passes us more ∧ TargetRead name cols v := by
    apply settles_onFindings.2
    apply (achieves_column (w := ⟨w.cursor, w.draft.findings⟩) hs hw hm).mono
    rintro e v ⟨he, hv, edits, hcount⟩
    refine ⟨he, hv, ?_⟩
    constructor
    · simp only [setFindings, hcount]
      exact hI.tables
    · exact hI.columns
    · exact hI.keys
    · simp only [setFindings, hcount]
      exact hI.conditions
    · simp only [setFindings, hcount]
      exact hI.placeholders
  apply hread.bind
  rintro e v ⟨rfl, hv, h⟩
  rcases columnExpression_name c.1 hs.isName with he | he
  · rw [he]
    exact hshape _ _
  · rw [he]
    exact Settles.pure ⟨rfl, hv, h⟩

theorem settles_listedItem {c : Option Token × Token} {key? : Option String} {F : Fault → Prop}
    (hs : SpellsListed c ts) (hm : endsOperand (us ++ more) = true)
    (hshape : ∀ place cause, F (.malformed place cause))
    (hw : w.cursor.Passes (ts ++ us) more) (hI : TargetRead name cols w) :
    Settles w (listedItem key? name) (fun _ v => v.cursor.Passes us more ∧
      TargetRead name (cols ++ [listedColumn name c]) v) F := by
  unfold listedItem
  apply (settles_columnName hs hm hshape hw hI).bind
  rintro p v ⟨hp, hv, h⟩
  refine ⟨hv, ?_⟩
  constructor
  · exact h.tables
  · change v.draft.columns ++ [_] = _
    rw [h.columns, hp]
    rfl
  · exact h.keys
  · exact h.conditions
  · exact h.placeholders

theorem listedRule (key? : Option String) (name : String) {F : Fault → Prop}
    (hshape : ∀ place cause, F (.malformed place cause)) (more : List Token) :
    ItemRule (.symbol .comma) SpellsListed (listedItem key? name)
      (fun ts => endsOperand ts = true)
      (fun cs _ => TargetRead name (cs.map (listedColumn name))) (fun _ => False) F more := by
  constructor
  · intro c ts us before _ v hs hm hv hI
    apply (settles_listedItem hs hm hshape hv hI).mono
    rintro _ x ⟨hx, h⟩
    left
    rw [List.map_append]
    exact ⟨hx, h⟩
  · exact fun _ _ _ _ _ h hI => hI.congr h.draft
  · intro s _ ts us hs _ _
    exact endsOperand_comma hs
  · exact fun _ h => h.elim

theorem settles_columnList {rule : ShardingRule} {catalog : Catalog} {l r : Token}
    {cs : List (Option Token × Token)} {F : Fault → Prop} (hl : l.type = .symbol .leftParen)
    (hcs : Joined (.symbol .comma) SpellsListed cs ts) (hr : r.type = .symbol .rightParen)
    (hshape : ∀ place cause, F (.malformed place cause))
    (hw : w.cursor.Passes (l :: (ts ++ r :: us)) more) (hI : TargetRead name [] w) :
    Settles w (columnList rule catalog) (fun _ v => v.cursor.Passes us more ∧
      TargetRead name (cs.map (listedColumn name)) v) F := by
  unfold columnList
  apply settles_insertTable hI.tables
  apply settles_skipIf hw (by simp [hl])
  intro v₁ h₁
  rw [if_pos rfl, writtenColumns_eq]
  have hend : endsOperand (r :: us ++ more) = true := endsOperand_rightParen hr
  have hread := (listedRule (rule.generatedKey? name) name hshape more).separated hend
    (by simp [hr]) hcs h₁.passes (hI.congr h₁.draft)
  apply Settles.bind (P := fun _ v => v.cursor.Passes (r :: us) more ∧
    TargetRead name (cs.map (listedColumn name)) v)
  · apply hread.bind
    rintro _ v₂ h₂
    exact Settles.pure (h₂.resolve_right id)
  · rintro _ v₂ ⟨hv₂, h₂⟩
    apply settles_current.2
    apply settles_modifyDraft.2
    have hexpect := achieves_expect (w := ⟨v₂.cursor, { v₂.draft with
      columnListStop := v₂.cursor.current.start }⟩) hv₂ hr
    apply Achieves.settles
    apply hexpect.mono
    intro _ v₃ h₃
    refine ⟨h₃.passes, ?_⟩
    constructor <;> rw [h₃.draft]
    · exact h₂.tables
    · exact h₂.columns
    · exact h₂.keys
    · exact h₂.conditions
    · exact h₂.placeholders

end SqlFront

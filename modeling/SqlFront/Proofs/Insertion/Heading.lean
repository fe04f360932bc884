import SqlFront.Proofs.Insertion.Attribution
import SqlFront.Proofs.Insertion.ListEnd
import SqlFront.Proofs.Insertion.WholeRow

/-!
# INSERT up to VALUES

The words up to INTO are skipped and the table is recorded. Behind it the words that the dialect
knows there are passed with their parentheses, and then the list of columns, if one is written. Up
to VALUES no row is recorded.
-/

set_option autoImplicit false

namespace SqlFront

open SqlFront.Parser SqlFront.Clause SqlFront.Reading

variable {d : Dialect} {rule : ShardingRule} {catalog : Catalog} {name : String}
  {words : List Keyword} {table values l : Token} {ts us list behind rest more : List Token}
  {w v : Workspace InsertStatement} {n : ℕ}

/-! ## Nothing is recorded -/

structure Unmarked (w v : Workspace Findings) : Prop where
  tables : v.draft.tables = w.draft.tables
  conditions : v.draft.conditions = w.draft.conditions
  marks : rowMarks v.draft.edits = rowMarks w.draft.edits

instance : Stepwise Unmarked where
  refl _ := ⟨rfl, rfl, rfl⟩
  trans h₁ h₂ := ⟨h₂.tables.trans h₁.tables, h₂.conditions.trans h₁.conditions,
    h₂.marks.trans h₁.marks⟩
  advance _ _ := ⟨rfl, rfl, rfl⟩

instance : Passing Unmarked where
  placeholder _ _ := ⟨rfl, rfl, rfl⟩
  member _ _ _ := ⟨rfl, rfl, rfl⟩

instance : Expressive Unmarked where
  owner _ _ _ _ h :=
    ⟨h.tables, h.conditions, rowMarks_append.trans ((List.append_nil _).trans h.marks)⟩

structure AddsNoRow (w v : Workspace InsertStatement) : Prop where
  found : Unmarked w.found v.found
  rows : v.draft.rows = w.draft.rows

instance : Stepwise AddsNoRow where
  refl _ := ⟨Stepwise.refl _, rfl⟩
  trans h₁ h₂ := ⟨Stepwise.trans h₁.found h₂.found, h₂.rows.trans h₁.rows⟩
  advance _ _ := ⟨⟨rfl, rfl, rfl⟩, rfl⟩

theorem Follows.addsNoRow {α : Type} {p : Parser Findings α} (hp : Follows Unmarked p) :
    Follows AddsNoRow (Parser.onFindings p : Parser InsertStatement α) := by
  intro w a v h
  obtain ⟨c, f, hf, rfl⟩ := onFindings_ok.1 h
  exact ⟨hp hf, rfl⟩

instance : FindingsCourse AddsNoRow where
  parentheses := .addsNoRow follows_skipParentheses
  expression := .addsNoRow follows_expression

theorem follows_addsNoRow {g : InsertStatement → InsertStatement}
    (hg : ∀ s, SameFindings (g s).findings s.findings ∧
      rowMarks (g s).findings.edits = rowMarks s.findings.edits ∧ (g s).rows = s.rows) :
    Follows AddsNoRow (modifyDraft g) := by
  intro w _ v h
  obtain rfl := modifyDraft_ok.1 h
  obtain ⟨hfound, hmarks, hrows⟩ := hg w.draft
  exact ⟨⟨hfound.tables, hfound.conditions, hmarks⟩, hrows⟩

theorem columnList_addsNoRow : Follows AddsNoRow (columnList rule catalog) := by
  have same : ∀ f : Findings, SameFindings f f := fun _ => ⟨rfl, rfl, rfl⟩
  have written : ∀ table, Follows AddsNoRow (writtenColumns rule table) := by
    refine fun table => Follows.bind (.discard (.commaSeparated ?_)) fun _ => ?_
    · exact follows_columnName.bind fun _ => follows_addsNoRow fun s => ⟨same _, rfl, rfl⟩
    · refine follows_current.bind fun t => ?_
      refine Follows.bind (follows_addsNoRow fun s => ⟨same _, rfl, rfl⟩) fun _ => ?_
      exact follows_expectSymbol (by decide)
  refine follows_insertTable.bind fun table => (follows_skipSymbol (by decide)).bind fun _ => ?_
  refine .ite (written table) (.ite (follows_current.bind fun t => ?_) (.pure _))
  refine follows_addsNoRow fun s => ⟨?_, rowMarks_congr (sources_catalogColumns table _ s), ?_⟩
  · obtain ⟨hf, -⟩ :=
      addColumns_findings (rule.generatedKey? table) table (catalog.columns table) s
    constructor <;> simp only [catalogColumns, hf]
  · exact (addColumns_rest (rule.generatedKey? table) table (catalog.columns table) s).1

theorem completeKey_addsNoRow : Follows AddsNoRow (completeKey rule) := by
  refine follows_insertTable.bind fun table => ?_
  cases rule.generatedKey? table with
  | none => exact .pure _
  | some key =>
    refine follows_addsNoRow fun s => ?_
    split
    · exact ⟨⟨rfl, rfl, rfl⟩, rowMarks_congr (sources_addKeyColumn key s), rfl⟩
    · exact ⟨⟨rfl, rfl, rfl⟩, rfl, rfl⟩

theorem behindRows_addsNoRow : Follows AddsNoRow (behindRows rule) :=
  follows_duplicateKeyClause.bind fun _ => completeKey_addsNoRow

/-! ## Words behind the table -/

inductive SpellsWords (words : List Keyword) (behind : List Token) : ℕ → List Token → Prop
  | nil : SpellsWords words behind 0 []
  | word {p : Token} {ts : List Token} {n : ℕ} : p.type ∈ keywordTypes words →
      frontType (ts ++ behind) ≠ .symbol .leftParen → SpellsWords words behind n ts →
      SpellsWords words behind n (p :: ts)
  | group {p l : Token} {us ts : List Token} {n : ℕ} : p.type ∈ keywordTypes words →
      l.type = .symbol .leftParen → Closes 0 us → SpellsWords words behind n ts →
      SpellsWords words behind (placeholderCount (l :: us) + n) (p :: (l :: us ++ ts))

theorem achieves_countedGroup (hl : l.type = .symbol .leftParen) (hus : Closes 0 us)
    (hw : w.cursor.Passes (l :: us ++ ts) more) :
    Achieves w (do let _ ← onFindings skipParentheses) fun _ v =>
      v.cursor.Passes ts more ∧ CountsValues w (placeholderCount (l :: us)) v := by
  have hread : Achieves w (onFindings skipParentheses) fun _ v =>
      v.cursor.Passes ts more ∧ CountsValues w (placeholderCount (l :: us)) v := by
    apply settles_onFindings.2
    have hp : (Workspace.mk w.cursor w.draft.findings).cursor.Passes (l :: us ++ ts) more := hw
    apply (achieves_skipParentheses hl hus hp).mono
    rintro _ v ⟨-, hv, hcount⟩
    refine ⟨hv, [], rfl, ?_⟩
    rw [List.append_nil]
    exact congrArg (fun f => ({ w.draft with findings := f } : InsertStatement)) hcount
  apply hread.bind
  intro _ v hv
  exact Settles.pure hv

theorem achieves_noGroup (hw : w.cursor.isAt (.symbol .leftParen) = false) :
    Achieves w (do let _ ← onFindings skipParentheses) fun _ v => v = w := by
  have hread : Achieves w (onFindings skipParentheses) fun _ v => v = w := by
    apply settles_onFindings.2
    apply (achieves_noParentheses (w := ⟨w.cursor, w.draft.findings⟩) hw).mono
    rintro _ _ rfl
    rfl
  apply hread.bind
  rintro _ _ rfl
  exact Settles.pure rfl

theorem achieves_words (hs : SpellsWords words behind n ts)
    (hbehind : frontType (behind ++ more) ∉ keywordTypes words)
    (hmore : frontType more ≠ .symbol .leftParen) (hw : w.cursor.Passes (ts ++ behind) more) :
    Achieves w (wordsBehindTable words) fun _ v =>
      v.cursor.Passes behind more ∧ CountsValues w n v := by
  unfold wordsBehindTable
  have hturns : ∀ k, ts.length < k → Achieves w
      (repeatFor (whileTurn (skipIf (keywordTypes words)) (do
        let _ ← onFindings skipParentheses)) k ())
      fun _ v => v.cursor.Passes behind more ∧ CountsValues w n v := by
    intro k hk
    -- By induction on the words, each of which takes a turn.
    induction hs generalizing w k with
    | nil =>
      obtain ⟨k, rfl⟩ := Nat.exists_eq_add_of_lt hk
      exact settles_lastTurn (achieves_noSkip (hw.type ▸ hbehind)) ⟨hw, .refl rfl⟩
    | @word p ts n hp hparen _ ih =>
      obtain ⟨k, rfl⟩ := Nat.exists_eq_add_of_lt hk
      apply settles_turn (achieves_skip hw hp)
      intro v hv
      have hnext : v.cursor.Passes (ts ++ behind) more := hv.passes
      have hat : v.cursor.isAt (.symbol .leftParen) = false := by
        rw [hnext.isAt, beq_eq_false_iff_ne]
        cases hfront : ts ++ behind with
        | nil => exact hmore
        | cons => rwa [hfront] at hparen
      apply (achieves_noGroup hat).mono
      rintro _ _ rfl
      apply (ih hnext _ (by simp only [List.length_cons]; omega)).mono
      rintro _ x ⟨hx, hcounts⟩
      have hstart := (CountsValues.refl hv.draft).trans hcounts
      rw [Nat.zero_add] at hstart
      exact ⟨hx, hstart⟩
    | @group p l us ts n hp hl hus _ ih =>
      obtain ⟨k, rfl⟩ := Nat.exists_eq_add_of_lt hk
      apply settles_turn (achieves_skip hw hp)
      intro v hv
      have hgroup : v.cursor.Passes (l :: us ++ (ts ++ behind)) more := by
        simpa using hv.passes
      apply (achieves_countedGroup hl hus hgroup).mono
      rintro _ x ⟨hx, hcount⟩
      apply (ih hx _ (by simp only [List.length_cons, List.length_append]; omega)).mono
      rintro _ y ⟨hy, hcounts⟩
      have hstart := (CountsValues.refl hv.draft).trans (hcount.trans hcounts)
      rw [Nat.zero_add] at hstart
      exact ⟨hy, hstart⟩
  exact hturns _ (by have := hw.length_lt_moves; rw [List.length_append] at this; omega)

/-! ## The list -/

inductive SpellsList : ℕ → List Token → Prop
  | absent : SpellsList 0 []
  | written {r : ValueRow} {ts : List Token} : SpellsValueRow r ts → SpellsList r.count ts

theorem SpellsList.front (h : SpellsList n list) :
    list = [] ∨ frontType list = .symbol .leftParen := by
  cases h with
  | absent => exact Or.inl rfl
  | written h =>
    obtain ⟨hl⟩ := h
    exact Or.inr hl

theorem columnRule (key? : Option String) (table : String) (n : ℕ) (more : List Token) :
    ItemRule (.symbol .comma) (fun v ts => Whole v ∧ ts = v) (listedItem key? table)
      (fun ts => endsOperand ts = true)
      (fun vs _ v => v.draft.findings.placeholders = n + wholeCounts vs) (fun _ => False)
      (fun _ => True) more := by
  constructor
  · rintro u ts us before es x ⟨hu, rfl⟩ hus hx hcount
    unfold listedItem columnName
    simp only [bind_assoc]
    apply settles_current.2
    apply (achieves_wholeValue hu hus hx).bind
    rintro e y ⟨-, hy, -, hcounts⟩
    have hplaceholders : y.draft.findings.placeholders = n + wholeCounts (before ++ [ts]) := by
      rw [hcounts.placeholders, hcount, wholeCounts_concat, Nat.add_assoc]
    cases e.columnName? with
    | some name => exact Or.inl ⟨hy, hplaceholders⟩
    | none => exact trivial
  · intro ts before es x y h hcount
    rw [h.draft, hcount]
  · intro s _ ts us hs _ _
    exact endsOperand_comma hs
  · exact fun _ h => h.elim

theorem settles_writtenList {r : ValueRow} (hs : SpellsValueRow r list)
    (hw : w.cursor.Passes list more) (htables : w.draft.findings.tables = ⟨[⟨name, none⟩]⟩) :
    Settles w (columnList rule catalog) (fun _ v => v.cursor.Faces more ∧
      v.draft.findings.placeholders = w.draft.findings.placeholders + r.count) fun _ => True := by
  obtain @⟨us, hl, hvs, hr⟩ := hs
  unfold columnList
  apply settles_insertTable htables
  apply settles_skipIf hw (by simp [hl])
  intro v hv
  rw [if_pos rfl, writtenColumns_eq]
  have hp : v.cursor.Passes (us ++ [r.right]) more := hv.passes
  have hcount : v.draft.findings.placeholders = w.draft.findings.placeholders + wholeCounts [] := by
    rw [hv.draft]
    rfl
  have hend : endsOperand ([r.right] ++ more) = true := endsOperand_rightParen hr
  have hread := (columnRule (rule.generatedKey? name) name w.draft.findings.placeholders
    more).separated hend (by simp [hr]) hvs hp hcount
  apply Settles.bind (P := fun _ x => x.cursor.Passes [r.right] more ∧
    x.draft.findings.placeholders = w.draft.findings.placeholders + r.count)
  · apply hread.bind
    rintro _ x hx
    exact Settles.pure (hx.resolve_right id)
  · rintro _ x ⟨hx, hcount⟩
    apply settles_current.2
    apply settles_modifyDraft.2
    have hexpect := achieves_expect (w := ⟨x.cursor, { x.draft with
      columnListStop := x.cursor.current.start }⟩) hx hr
    apply Achieves.settles
    apply hexpect.mono
    intro _ y hy
    refine ⟨hy.passes.faces, ?_⟩
    rw [hy.draft]
    exact hcount

theorem achieves_unwrittenList (hfront : w.cursor.current.type ≠ .symbol .leftParen)
    (htables : w.draft.findings.tables = ⟨[⟨name, none⟩]⟩) :
    Achieves w (columnList rule catalog) fun _ v => v.cursor = w.cursor ∧
      v.draft.findings.placeholders = w.draft.findings.placeholders := by
  unfold columnList
  apply settles_insertTable htables
  apply settles_notAt (by simpa using hfront)
  rw [if_neg (by simp)]
  split
  · apply settles_current.2
    refine ⟨rfl, ?_⟩
    obtain ⟨hf, -⟩ :=
      addColumns_findings (rule.generatedKey? name) name (catalog.columns name) w.draft
    simp only [catalogColumns, hf]
  · exact Settles.pure ⟨rfl, rfl⟩

theorem settles_list (hs : SpellsList n list)
    (hvalues : values.type ∈ keywordTypes (.VALUES :: d.grammar.valuesSynonyms))
    (hw : w.cursor.Passes list (values :: rest))
    (htables : w.draft.findings.tables = ⟨[⟨name, none⟩]⟩) :
    Settles w (columnList rule catalog) (fun _ v => v.cursor.Faces (values :: rest) ∧
      v.draft.findings.placeholders = w.draft.findings.placeholders + n) fun _ => True := by
  cases hs with
  | absent =>
    have hfront : w.cursor.current.type ≠ .symbol .leftParen := by
      obtain ⟨k, -, hk⟩ := List.mem_map.1 hvalues
      simp [hw.faces.current, ← hk]
    apply (achieves_unwrittenList hfront htables).settles.mono
    rintro _ v ⟨hc, hcount⟩
    exact ⟨hc ▸ hw.faces, hcount⟩
  | written hr => exact settles_writtenList hr hw htables

/-! ## The heading -/

/-- The tokens of an INSERT up to VALUES, with the number of placeholders that are counted in them:
any words up to INTO, the table, the words that the dialect knows behind it, and a list. -/
inductive SpellsHeading (d : Dialect) (table : Token) : ℕ → List Token → Prop
  | intro {i o : Token} {b p l : List Token} {m n : ℕ} : i.type = .keyword .INSERT →
      (∀ t ∈ b, t.type ≠ .keyword .INTO) → o.type = .keyword .INTO →
      SpellsWords d.grammar.betweenTableAndValues l m p → SpellsList n l →
      SpellsHeading d table (m + n) (i :: (b ++ o :: table :: (p ++ l)))

theorem SpellsHeading.front (h : SpellsHeading d table n ts) :
    ∃ ins rest, ts = ins :: rest ∧ ins.type = .keyword .INSERT := by
  obtain ⟨hins⟩ := h
  exact ⟨_, _, rfl, hins⟩

structure BeforeRows (name : String) (n : ℕ) (s : InsertStatement) : Prop where
  tables : s.findings.tables = ⟨[⟨name, none⟩]⟩
  conditions : s.findings.conditions = .empty
  marks : rowMarks s.findings.edits = []
  rows : s.rows = []
  placeholders : s.findings.placeholders = n

theorem targetDraft_beforeRows (table : Token) :
    BeforeRows (unquoted table.literals) 0 (targetDraft table) := by
  constructor <;> rfl

theorem BeforeRows.counts {m : ℕ} (h : BeforeRows name m w.draft) (hv : CountsValues w n v) :
    BeforeRows name (m + n) v.draft := by
  have hmarks := hv.marks
  obtain ⟨edits, -, hd⟩ := hv
  constructor
  · rw [hd, h.tables]
  · rw [hd, h.conditions]
  · rw [hmarks, h.marks]
  · rw [hd, h.rows]
  · rw [hd, h.placeholders]

theorem BeforeRows.adds {m : ℕ} (h : BeforeRows name m w.draft) (hv : AddsNoRow w v)
    (hcount : v.draft.findings.placeholders = w.draft.findings.placeholders + n) :
    BeforeRows name (m + n) v.draft := by
  constructor
  · exact hv.found.tables.trans h.tables
  · exact hv.found.conditions.trans h.conditions
  · exact hv.found.marks.trans h.marks
  · rw [hv.rows, h.rows]
  · rw [hcount, h.placeholders]

theorem SpellsWords.front (h : SpellsWords words behind n ts) :
    ts = [] ∨ ∃ k, frontType ts = .keyword k := by
  cases h with
  | nil => exact Or.inl rfl
  | word hp =>
    obtain ⟨k, -, hk⟩ := List.mem_map.1 hp
    exact Or.inr ⟨k, hk.symm⟩
  | group hp =>
    obtain ⟨k, -, hk⟩ := List.mem_map.1 hp
    exact Or.inr ⟨k, hk.symm⟩

theorem settles_wordsBeforeList {into : Token} {before parts : List Token}
    (hbefore : ∀ t ∈ before, t.type ≠ .keyword .INTO ∧ t.type ≠ .endOfText)
    (hinto : into.type = .keyword .INTO)
    (hdot : frontType (parts ++ list ++ more) ≠ .symbol .dot)
    (hparts : SpellsWords w.cursor.dialect.grammar.betweenTableAndValues list n parts)
    (hbetween : frontType (list ++ more) ∉
      keywordTypes w.cursor.dialect.grammar.betweenTableAndValues)
    (hmore : frontType more ≠ .symbol .leftParen) (hd : w.draft = {})
    (hw : w.cursor.Passes (before ++ into :: table :: (parts ++ list)) more) :
    Settles w intoClause (fun _ v => v.cursor.Passes list more ∧
      BeforeRows (unquoted table.literals) n v.draft) fun _ => True := by
  unfold intoClause
  apply settles_grammar.2
  have hrefuse : Settles w
      (refuseIf (keywordTypes w.cursor.dialect.grammar.refusedBeforeInto)) (fun _ v => v = w)
      fun _ => True :=
    settles_of_run (fun _ _ hr => (refuseIf_ok.1 hr).2) fun _ => trivial
  apply hrefuse.bind
  rintro _ v hv
  rw [hv]
  have hskip : Achieves w (skipUntil [.keyword .INTO]) fun _ x =>
      x.cursor.Passes (into :: table :: (parts ++ list)) more ∧ x.draft = w.draft :=
    achieves_skipUntil (fun t ht => by simpa using (hbefore t ht).1)
      (fun t ht => (hbefore t ht).2) (by simp [hinto]) hw
  apply hskip.bind
  rintro _ x ⟨hx, hxd⟩
  apply settles_tableWords hinto hdot hx (hxd.trans hd)
  intro y hy hyd
  apply (achieves_words hparts hbetween hmore hy).settles.mono
  rintro _ z ⟨hz, hcounts⟩
  have hread := (hyd ▸ targetDraft_beforeRows table : BeforeRows _ 0 y.draft).counts hcounts
  rw [Nat.zero_add] at hread
  exact ⟨hz, hread⟩

theorem settles_heading (rule : ShardingRule) (catalog : Catalog)
    (hs : SpellsHeading w.cursor.dialect table n ts)
    (hvalues : values.type ∈ keywordTypes (.VALUES :: w.cursor.dialect.grammar.valuesSynonyms))
    (hinner : ∀ t ∈ ts, t.type ≠ .endOfText) (hd : w.draft = {})
    (hw : w.cursor.Passes ts (values :: rest)) :
    Settles w (insertionHead rule catalog) (fun _ v => v.cursor.Faces (values :: rest) ∧
      BeforeRows (unquoted table.literals) n v.draft) fun _ => True := by
  obtain @⟨ins, into, before, parts, list, m, n, hins, hbefore, hinto, hparts, hlist⟩ := hs
  obtain ⟨hbetween, hlistDot⟩ := behindTable_front rest hlist.front hvalues
  have hparen : frontType (values :: rest) ≠ .symbol .leftParen := by
    obtain ⟨k, -, hk⟩ := List.mem_map.1 hvalues
    simp [← hk]
  have hdot : frontType (parts ++ list ++ values :: rest) ≠ .symbol .dot := by
    rcases hparts.front with rfl | ⟨k, hk⟩
    · exact hlistDot
    · have hne : parts ≠ [] := by
        rintro rfl
        simp at hk
      rw [List.append_assoc, frontType_append hne, hk]
      simp
  unfold insertionHead
  apply (achieves_advance hw).bind
  intro _ v hv
  have hdialect : v.cursor.dialect = w.cursor.dialect := Cursor.advance_dialect hv.advance
  rw [← hdialect] at hparts hbetween
  have hskipped : ∀ t ∈ before, t.type ≠ .keyword .INTO ∧ t.type ≠ .endOfText :=
    fun t ht => ⟨hbefore t ht, hinner t (by simp [ht])⟩
  apply (settles_wordsBeforeList hskipped hinto hdot hparts hbetween hparen
    (hv.draft.trans hd) hv.passes).bind
  rintro _ x ⟨hx, hread⟩
  apply (settles_list hlist hvalues hx hread.tables).withRun.bind
  rintro _ y ⟨⟨hy, hcount⟩, hrun⟩
  apply settles_of_run _ fun _ => trivial
  intro _ z hz
  obtain ⟨-, rfl⟩ := refuseIf_ok.1 hz
  exact ⟨hy, hread.adds (columnList_addsNoRow hrun) hcount⟩

end SqlFront

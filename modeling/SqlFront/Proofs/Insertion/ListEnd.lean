import SqlFront.Proofs.Insertion.Enclosed
import SqlFront.Proofs.Insertion.Statement
import SqlFront.Proofs.Insertion.Synthesis

/-!
# The end of the column list

An INSERT records the place where its column list ends, and every edit that adds columns stands
there. The place is that of a parenthesis of the list, or in front of the word behind the table if
the catalog gives the columns, or the start of the text.
-/

set_option autoImplicit false

namespace SqlFront

open SqlFront.Parser SqlFront.Clause SqlFront.Reading

variable {rule : ShardingRule} {catalog : Catalog} {σ : Type}

/-! ## Edits that add columns -/

namespace Edit

def addsColumns : Edit → Bool
  | .items _ _ _ => true
  | .insertColumn _ _ => true
  | _ => false

end Edit

def AddsNoColumns [HasFindings σ] (w v : Workspace σ) : Prop :=
  ∀ e ∈ (findings v.draft).edits, e.addsColumns = true → e ∈ (findings w.draft).edits

instance [HasFindings σ] : Stepwise (AddsNoColumns (σ := σ)) where
  refl _ _ he _ := he
  trans h₁ h₂ e he hadds := h₁ e (h₂ e he hadds) hadds
  advance _ _ _ he _ := he

instance : Passing (AddsNoColumns (σ := Findings)) where
  placeholder _ _ _ he _ := he
  member _ _ _ _ he _ := he

instance : Expressive (AddsNoColumns (σ := Findings)) where
  owner _ _ _ _ h e he hadds := by
    rcases List.mem_append.1 he with he | he
    · exact h e he hadds
    · rw [List.mem_singleton.1 he] at hadds
      cases hadds

theorem Follows.addsNoColumns [HasFindings σ] [LawfulFindings σ] {α : Type} {p : Parser Findings α}
    (hp : Follows AddsNoColumns p) : Follows AddsNoColumns (Parser.onFindings p : Parser σ α) := by
  intro w a v h
  obtain ⟨c, f, hf, rfl⟩ := onFindings_ok.1 h
  intro e he hadds
  rw [LawfulFindings.findings_set] at he
  exact hp hf e he hadds

instance [HasFindings σ] [LawfulFindings σ] : FindingsCourse (AddsNoColumns (σ := σ)) where
  parentheses := .addsNoColumns follows_skipParentheses
  expression := .addsNoColumns follows_expression

/-! ## Edits at the end of the list -/

def InsertStatement.AddsAtEnd (s : InsertStatement) : Prop :=
  ∀ e ∈ s.findings.edits, e.addsColumns = true → e.start = s.columnListStop

structure KeepsEnd (w v : Workspace InsertStatement) : Prop where
  stop : v.draft.columnListStop = w.draft.columnListStop
  added : w.draft.AddsAtEnd → v.draft.AddsAtEnd

instance : Stepwise KeepsEnd where
  refl _ := ⟨rfl, id⟩
  trans h₁ h₂ := ⟨h₂.stop.trans h₁.stop, h₂.added ∘ h₁.added⟩
  advance _ _ := ⟨rfl, id⟩

theorem Follows.keepsEnd {α : Type} {p : Parser Findings α} (hp : Follows AddsNoColumns p) :
    Follows KeepsEnd (Parser.onFindings p : Parser InsertStatement α) := by
  intro w a v h
  obtain ⟨c, f, hf, rfl⟩ := onFindings_ok.1 h
  exact ⟨rfl, fun hw e he hadds => hw e (hp hf e he hadds) hadds⟩

theorem follows_keepsEnd {g : InsertStatement → InsertStatement}
    (hstop : ∀ s, (g s).columnListStop = s.columnListStop)
    (hadded : ∀ s, s.AddsAtEnd → (g s).AddsAtEnd) : Follows KeepsEnd (modifyDraft g) := by
  intro w u v h
  obtain rfl := modifyDraft_ok.1 h
  exact ⟨hstop _, hadded _⟩

section

variable {s : InsertStatement}

theorem shortenColumns_stop (key? : Option String) (n : ℕ) :
    (shortenColumns key? n s).columnListStop = s.columnListStop := by
  cases key? with
  | none => rfl
  | some key =>
    simp only [shortenColumns, removeKeyColumn]
    split
    · split <;> rfl
    · rfl

theorem shortenColumns_addsAtEnd (key? : Option String) (n : ℕ) (hs : s.AddsAtEnd) :
    (shortenColumns key? n s).AddsAtEnd := by
  cases key? with
  | none => exact hs
  | some key =>
    simp only [shortenColumns, removeKeyColumn]
    split
    · split
      · exact hs
      · intro e he hadds
        obtain ⟨e', he', rfl⟩ := List.mem_map.1 he
        cases e' with
        | items start items leading =>
          have hplace : start = s.columnListStop := hs (.items start items leading) he' rfl
          exact hplace
        | _ => exact hs _ he' hadds
    · exact hs

theorem dropColumns_addsAtEnd (hs : s.AddsAtEnd) : (dropColumns s).AddsAtEnd :=
  fun e he hadds => hs e (List.mem_filter.1 he).1 hadds

theorem appendItem?_start {item : String} {es fs : List Edit} {place : ℕ}
    (h : appendItem? item es = some fs)
    (hes : ∀ e ∈ es, e.addsColumns = true → e.start = place) :
    ∀ e ∈ fs, e.addsColumns = true → e.start = place := by
  induction es generalizing fs with
  | nil => cases h
  | cons x es ih =>
    have hrest := fun e he => hes e (List.mem_cons_of_mem x he)
    cases x with
    | items start items leading =>
      obtain rfl := Option.some.inj h
      have hplace : start = place := hes (.items start items leading) List.mem_cons_self rfl
      exact List.forall_mem_cons.2 ⟨fun _ => hplace, hrest⟩
    | _ =>
      obtain ⟨gs, hgs, rfl⟩ := Option.map_eq_some_iff.1 h
      exact List.forall_mem_cons.2 ⟨hes _ List.mem_cons_self, ih hgs hrest⟩

theorem addKeyColumn_addsAtEnd (key : String) (hs : s.AddsAtEnd) :
    (addKeyColumn key s).AddsAtEnd := by
  intro e he hadds
  simp only [addKeyColumn] at he
  split at he
  · next h => exact appendItem?_start h hs e he hadds
  · rcases List.mem_append.1 he with he | he
    · exact hs e he hadds
    · rw [List.mem_singleton.1 he]
      rfl

end

instance : InsertCourse KeepsEnd where
  parentheses := .keepsEnd follows_skipParentheses
  expression := .keepsEnd follows_expression
  sign := .keepsEnd follows_assignmentSign
  row table _ _ := by
    refine ⟨rfl, fun hs e he hadds => ?_⟩
    rcases List.mem_append.1 he with he | he
    · exact hs e he hadds
    · rw [List.mem_singleton.1 he] at hadds
      cases hadds
  record hedits hstop := follows_keepsEnd hstop fun s hs e he => by
    rw [hstop]
    exact hs e (hedits s ▸ he)
  shorten key? n := follows_keepsEnd (fun _ => shortenColumns_stop key? n) fun _ =>
    shortenColumns_addsAtEnd key? n
  drop := follows_keepsEnd (fun _ => rfl) fun _ => dropColumns_addsAtEnd
  complete key := by
    refine follows_keepsEnd (fun s => ?_) fun s hs => ?_
    · split <;> rfl
    · split
      · exact addKeyColumn_addsAtEnd key hs
      · exact hs

/-! ## Up to the list -/

variable {d : Dialect} {name : String} {table values : Token} {ts us parts list more : List Token}
  {w v : Workspace InsertStatement}

inductive SpellsPartition : List Token → Prop
  | absent : SpellsPartition []
  | present {p l : Token} {us : List Token} : p.type = .keyword .PARTITION →
      l.type = .symbol .leftParen → Closes 0 us → SpellsPartition (p :: l :: us)

inductive SpellsEnclosed : List Token → Prop
  | absent : SpellsEnclosed []
  | present {l : Token} {us : List Token} : l.type = .symbol .leftParen → Closes 0 us →
      SpellsEnclosed (l :: us)

structure Unlisted (name : String) (s : InsertStatement) : Prop where
  tables : s.findings.tables = ⟨[⟨name, none⟩]⟩
  stop : s.columnListStop = 0
  edits : ∀ e ∈ s.findings.edits, e.addsColumns = false

theorem unlisted_targetDraft (table : Token) :
    Unlisted (unquoted table.literals) (targetDraft table) := by
  refine ⟨rfl, rfl, fun e he => ?_⟩
  rw [List.mem_singleton.1 he]
  rfl

theorem Unlisted.addsAtEnd {s : InsertStatement} (h : Unlisted name s) : s.AddsAtEnd := by
  intro e he hadds
  rw [h.edits e he] at hadds
  cases hadds

theorem achieves_passGroup {l : Token} (hl : l.type = .symbol .leftParen) (hus : Closes 0 us)
    (hw : w.cursor.Passes (l :: (us ++ ts)) more) (hu : Unlisted name w.draft) :
    Achieves w (do
      let _ ← onFindings skipParentheses) fun _ v => v.cursor.Passes ts more ∧
        Unlisted name v.draft := by
  have hread : Achieves w (onFindings skipParentheses) fun _ v => v.cursor.Passes ts more ∧
      v.draft.findings.tables = w.draft.findings.tables ∧
      v.draft.columnListStop = w.draft.columnListStop := by
    apply settles_onFindings.2
    have hp : (Workspace.mk w.cursor w.draft.findings).cursor.Passes (l :: us ++ ts) more := hw
    apply (achieves_skipParentheses hl hus hp).mono
    rintro _ v ⟨-, hv, hcount⟩
    exact ⟨hv, hcount.collects.tables, rfl⟩
  apply (Settles.withRun hread).bind
  rintro _ v ⟨⟨hv, htables, hstop⟩, hrun⟩
  refine Settles.pure ⟨hv, htables.trans hu.tables, hstop.trans hu.stop, fun e he => ?_⟩
  have hkept : AddsNoColumns w v := FindingsCourse.parentheses hrun
  cases hadds : e.addsColumns with
  | false => rfl
  | true => exact hadds.symm.trans (hu.edits e (hkept e he hadds))

theorem achieves_partition {p l : Token} {words : List Keyword}
    (hp : p.type ∈ keywordTypes words) (hl : l.type = .symbol .leftParen) (hus : Closes 0 us)
    (hts : frontType (ts ++ more) ∉ keywordTypes words)
    (hw : w.cursor.Passes (p :: l :: (us ++ ts)) more) (hu : Unlisted name w.draft) :
    Achieves w (wordsBehindTable words) fun _ v => v.cursor.Passes ts more ∧
      Unlisted name v.draft := by
  unfold wordsBehindTable
  rw [whileM_eq]
  apply settles_turn (achieves_skip hw hp)
  intro v hv
  apply (achieves_passGroup hl hus hv.passes (hv.draft ▸ hu)).mono
  rintro _ x ⟨hx, hxu⟩
  exact settles_lastTurn (achieves_noSkip (hx.type ▸ hts)) ⟨hx, hxu⟩

/-! ## The list -/

inductive ListEnd (catalog : Catalog) (name : String) (front : Token) (list : List Token) : ℕ → Prop
  | written {r : Token} : front.type = .symbol .leftParen → r ∈ list →
      ListEnd catalog name front list r.start
  | given : front.type ≠ .symbol .leftParen → catalog.containsTable name = true →
      ListEnd catalog name front list (front.start - 1)
  | unknown : front.type ≠ .symbol .leftParen → catalog.containsTable name = false →
      ListEnd catalog name front list 0

theorem follows_writtenColumns (table : String) :
    Follows AddsNoColumns (writtenColumns rule table) := by
  have hchange : ∀ {g : InsertStatement → InsertStatement},
      (∀ s, (g s).findings.edits = s.findings.edits) → Follows AddsNoColumns (modifyDraft g) := by
    intro g hg w u v h
    obtain rfl := modifyDraft_ok.1 h
    exact fun e he _ => hg w.draft ▸ he
  refine Follows.bind (.discard (.commaSeparated ?_)) fun _ => ?_
  · exact follows_columnName.bind fun _ => hchange fun _ => rfl
  · refine follows_current.bind fun t => Follows.bind (hchange ?_) fun _ => ?_
    · exact fun _ => rfl
    · exact follows_expectSymbol (by decide)

theorem settles_writtenEnd {l : Token} (hl : l.type = .symbol .leftParen) (hus : Closes 0 us)
    (hmore : EndsRows more) (hw : w.cursor.Passes (l :: us) more) (hu : Unlisted name w.draft) :
    Settles w (columnList rule catalog) (fun _ v => v.draft.AddsAtEnd ∧
      ∃ r ∈ us, v.draft.columnListStop = r.start) fun _ => True := by
  unfold columnList
  apply settles_insertTable hu.tables
  apply settles_skipIf hw (by simp [hl])
  intro v hv
  rw [if_pos rfl]
  apply (Settles.withRun (settles_enclosedColumns hus hmore hv.passes)).mono
  rintro _ x ⟨⟨r, hr, -, hstop⟩, hrun⟩
  refine ⟨fun e he hadds => ?_, r, hr, hstop⟩
  have hkept := follows_writtenColumns name hrun e he hadds
  rw [hv.draft] at hkept
  exact absurd hadds (by simp [hu.edits e hkept])

theorem catalogColumns_addsAtEnd {s : InsertStatement} (table : String) (start : ℕ)
    (hu : Unlisted name s) : (catalogColumns rule catalog table start s).AddsAtEnd := by
  obtain ⟨hf, -⟩ := addColumns_findings (rule.generatedKey? table) table (catalog.columns table) s
  intro e he hadds
  simp only [catalogColumns, hf, List.mem_append, List.mem_cons, List.not_mem_nil, or_false] at he
  rcases he with he | rfl | rfl | rfl
  · exact absurd hadds (by simp [hu.edits e he])
  all_goals rfl

theorem achieves_unwrittenEnd (hfront : w.cursor.current.type ≠ .symbol .leftParen)
    (hu : Unlisted name w.draft) :
    Achieves w (columnList rule catalog) fun _ v => v.draft.AddsAtEnd ∧
      ListEnd catalog name w.cursor.current list v.draft.columnListStop := by
  unfold columnList
  apply settles_insertTable hu.tables
  apply settles_notAt (by simpa using hfront)
  rw [if_neg (by simp)]
  cases hcatalog : catalog.containsTable name with
  | true =>
    rw [if_pos rfl]
    apply settles_current.2
    exact ⟨catalogColumns_addsAtEnd name _ hu, .given hfront hcatalog⟩
  | false =>
    refine Settles.pure ⟨hu.addsAtEnd, ?_⟩
    rw [hu.stop]
    exact .unknown hfront hcatalog

/-! ## The statement -/

/-- The token behind the table and what the dialect reads behind it: the list begins here, or there
is none. -/
def listFront (d : Dialect) (parts list : List Token) (values : Token) : Token :=
  ((if .PARTITION ∈ d.grammar.betweenTableAndValues then [] else parts) ++ list).headD values

theorem values_endsRows {rest : List Token}
    (hvalues : values.type ∈ keywordTypes (.VALUES :: d.grammar.valuesSynonyms)) :
    EndsRows (values :: rest) := by
  obtain ⟨k, -, hk⟩ := List.mem_map.1 hvalues
  constructor
  · have hfront : frontType (values :: rest) = .keyword k := hk.symm
    exact endsOperand_keyword hfront
  · simp [← hk]
  · simp [← hk]

theorem settles_listEnd {rest : List Token} (hlist : SpellsEnclosed list)
    (hvalues : values.type ∈ keywordTypes (.VALUES :: d.grammar.valuesSynonyms))
    (hw : w.cursor.Passes list (values :: rest)) (hu : Unlisted name w.draft) :
    Settles w (columnList rule catalog) (fun _ v => v.draft.AddsAtEnd ∧
      ListEnd catalog name (list.headD values) list v.draft.columnListStop) fun _ => True := by
  cases hlist with
  | absent =>
    have hfront : w.cursor.current = values := hw.faces.current
    have hword : w.cursor.current.type ≠ .symbol .leftParen := by
      obtain ⟨k, -, hk⟩ := List.mem_map.1 hvalues
      simp [hfront, ← hk]
    have hread : Achieves w (columnList rule catalog) fun _ v => v.draft.AddsAtEnd ∧
        ListEnd catalog name w.cursor.current [] v.draft.columnListStop :=
      achieves_unwrittenEnd hword hu
    rw [hfront] at hread
    exact hread.settles
  | present hl hus =>
    apply (settles_writtenEnd hl hus (values_endsRows hvalues) hw hu).mono
    rintro _ v ⟨hadds, r, hr, hstop⟩
    rw [hstop]
    exact ⟨hadds, .written hl (List.mem_cons_of_mem _ hr)⟩

theorem behindTable_front (rest : List Token) (hlist : list = [] ∨ frontType list = .symbol .leftParen)
    (hvalues : values.type ∈ keywordTypes (.VALUES :: d.grammar.valuesSynonyms)) :
    frontType (list ++ values :: rest) ∉ keywordTypes d.grammar.betweenTableAndValues ∧
      frontType (list ++ values :: rest) ≠ .symbol .dot := by
  rcases hlist with rfl | hleft
  · rw [List.nil_append, frontType_cons]
    generalize values.type = x at hvalues
    revert x
    cases d <;> decide
  · have hne : list ≠ [] := by
      rintro rfl
      simp at hleft
    rw [frontType_append hne, hleft]
    simp [keywordTypes]

theorem SpellsEnclosed.front (h : SpellsEnclosed list) :
    list = [] ∨ frontType list = .symbol .leftParen := by
  cases h with
  | absent => exact Or.inl rfl
  | present hl => exact Or.inr hl

theorem settles_targetAndList (rule : ShardingRule) (catalog : Catalog) {into : Token}
    {rest : List Token} (hinto : into.type = .keyword .INTO) (hparts : SpellsPartition parts)
    (hlist : SpellsEnclosed list)
    (hvalues : values.type ∈ keywordTypes (.VALUES :: d.grammar.valuesSynonyms))
    (hdialect : w.cursor.dialect = d) (hd : w.draft = {})
    (hw : w.cursor.Passes (into :: table :: (parts ++ list)) (values :: rest)) :
    Settles w (do
      intoClause
      columnList rule catalog) (fun _ v => v.draft.AddsAtEnd ∧
        ListEnd catalog (unquoted table.literals) (listFront d parts list values) list
          v.draft.columnListStop) fun _ => True := by
  obtain ⟨hbetween, hdot⟩ := behindTable_front rest hlist.front hvalues
  rw [← hdialect] at hbetween
  have hlistRead : ∀ v : Workspace InsertStatement, v.cursor.Passes list (values :: rest) →
      Unlisted (unquoted table.literals) v.draft →
      Settles v (columnList rule catalog) (fun _ x => x.draft.AddsAtEnd ∧
        ListEnd catalog (unquoted table.literals) (list.headD values) list
          x.draft.columnListStop) fun _ => True :=
    fun v hv hu => settles_listEnd hlist hvalues hv hu
  cases hparts with
  | absent =>
    have hfront : listFront d [] list values = list.headD values := by simp [listFront]
    rw [hfront]
    apply (achieves_intoClause hinto hdot hbetween hw hd).bind
    rintro _ v ⟨hv, hvd⟩
    exact hlistRead v hv (hvd ▸ unlisted_targetDraft table)
  | @present p l us hp hl hus =>
    have hword : frontType (p :: l :: us ++ list ++ values :: rest) = .keyword .PARTITION := hp
    have hpdot : frontType (p :: l :: us ++ list ++ values :: rest) ≠ .symbol .dot := by
      rw [hword]
      simp
    -- A dialect that does not skip the partition finds it where the list may stand.
    by_cases hread : Keyword.PARTITION ∈ d.grammar.betweenTableAndValues
    · have hfront : listFront d (p :: l :: us) list values = list.headD values := by
        simp [listFront, hread]
      rw [hfront]
      have hpartition : Settles w intoClause (fun _ v => v.cursor.Passes list (values :: rest) ∧
          Unlisted (unquoted table.literals) v.draft) fun _ => True := by
        apply settles_intoTable hinto hpdot hw hd
        intro v hv hvd
        have hpin : p.type ∈ keywordTypes w.cursor.dialect.grammar.betweenTableAndValues := by
          rw [hp, hdialect]
          exact List.mem_map_of_mem hread
        exact (achieves_partition hpin hl hus hbetween hv
          (hvd ▸ unlisted_targetDraft table)).settles
      apply hpartition.bind
      rintro _ v ⟨hv, hu⟩
      exact hlistRead v hv hu
    · have hfront : listFront d (p :: l :: us) list values = p := by simp [listFront, hread]
      rw [hfront]
      have hpout : frontType (p :: l :: us ++ list ++ values :: rest) ∉
          keywordTypes w.cursor.dialect.grammar.betweenTableAndValues := by
        rw [hword, hdialect]
        simpa [keywordTypes] using hread
      apply (achieves_intoClause hinto hpdot hpout hw hd).bind
      rintro _ v ⟨hv, hvd⟩
      have hcurrent : v.cursor.current = p := hv.current
      have hunwritten : Achieves v (columnList rule catalog) fun _ x => x.draft.AddsAtEnd ∧
          ListEnd catalog (unquoted table.literals) v.cursor.current list x.draft.columnListStop :=
        achieves_unwrittenEnd (by simp [hcurrent, hp]) (hvd ▸ unlisted_targetDraft table)
      rw [hcurrent] at hunwritten
      exact hunwritten.settles

theorem settles_insertionEnd (rule : ShardingRule) (catalog : Catalog) {ins into : Token}
    {rest : List Token} (hinto : into.type = .keyword .INTO) (hparts : SpellsPartition parts)
    (hlist : SpellsEnclosed list)
    (hvalues : values.type ∈ keywordTypes (.VALUES :: d.grammar.valuesSynonyms))
    (hdialect : w.cursor.dialect = d) (hd : w.draft = {})
    (hw : w.cursor.Passes (ins :: into :: table :: (parts ++ list)) (values :: rest)) :
    Settles w (insertion rule catalog) (fun _ v => v.draft.AddsAtEnd ∧
      ListEnd catalog (unquoted table.literals) (listFront d parts list values) list
        v.draft.columnListStop) fun _ => True := by
  have hhead : Settles w (insertionHead rule catalog) (fun _ v => v.draft.AddsAtEnd ∧
      ListEnd catalog (unquoted table.literals) (listFront d parts list values) list
        v.draft.columnListStop) fun _ => True := by
    unfold insertionHead
    apply (achieves_advance hw).bind
    intro _ v hv
    have hread := settles_targetAndList rule catalog hinto hparts hlist hvalues
      ((Cursor.advance_dialect hv.advance).trans hdialect) (hv.draft.trans hd) hv.passes
    rw [← bind_assoc]
    apply hread.bind
    intro _ x hx
    apply settles_of_run _ fun _ => trivial
    intro _ y hy
    exact (refuseIf_ok.1 hy).2 ▸ hx
  rw [insertion_split]
  apply hhead.bind
  rintro _ v ⟨hadds, hend⟩
  apply settles_of_run _ fun _ => trivial
  intro _ x hx
  -- Behind the list its end stays, and so do the edits there.
  have hkept : KeepsEnd v x := follows_insertionRows hx
  exact ⟨hkept.added hadds, hkept.stop ▸ hend⟩

end SqlFront

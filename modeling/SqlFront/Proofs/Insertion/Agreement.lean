import SqlFront.Proofs.Insertion.Synthesis

/-!
# Rows that agree

The rows of an INSERT without a column list agree in their length, and either none or all of them
give the generated key a value, exactly if all of them are as long as the list of the catalog, or
all of them as long as that list without the generated key. A row that is too short behind one
that is not is accepted as well, and then they do not agree.
-/

set_option autoImplicit false

namespace SqlFront

open SqlFront.Parser SqlFront.Clause SqlFront.Reading

variable {d : Dialect} {rule : ShardingRule} {catalog : Catalog} {name : String}
  {key? : Option String} {cols : List Column} {names : List String} {table : Token}
  {u w v x : Workspace InsertStatement} {s i : InsertStatement} {ts us more tail : List Token}
  {vs : List (List Token)} {rows : List (List (List Token))}

/-! ## The generated key -/

def completed (rule : ShardingRule) (name : String) (s : InsertStatement) : InsertStatement :=
  match rule.generatedKey? name with
  | some key => if lacksKey key s then addKeyColumn key s else s
  | none => s

theorem achieves_completeKey (htables : w.draft.findings.tables = ⟨[⟨name, none⟩]⟩) :
    Achieves w (completeKey rule) fun _ v => v.draft = completed rule name w.draft := by
  unfold completeKey
  apply settles_insertTable htables
  unfold completed
  cases rule.generatedKey? name with
  | none => exact Settles.pure rfl
  | some key => exact (rfl : (if lacksKey key w.draft then _ else _) = _)

theorem completed_eq (rule : ShardingRule) (name : String) (s : InsertStatement) :
    ∃ edits, completed rule name s =
      { s with findings := { s.findings with edits := edits } } := by
  unfold completed
  split
  · split
    · exact ⟨_, rfl⟩
    · exact ⟨s.findings.edits, rfl⟩
  · exact ⟨s.findings.edits, rfl⟩

theorem completed_columns (rule : ShardingRule) (name : String) (s : InsertStatement) :
    (completed rule name s).columns = s.columns := by
  obtain ⟨edits, h⟩ := completed_eq rule name s
  rw [h]

theorem completed_keys (rule : ShardingRule) (name : String) (s : InsertStatement) :
    (completed rule name s).generatedKeys = s.generatedKeys := by
  obtain ⟨edits, h⟩ := completed_eq rule name s
  rw [h]

theorem lacksKey_completed {key : String} :
    lacksKey key (completed rule name s) = lacksKey key s := by
  obtain ⟨edits, h⟩ := completed_eq rule name s
  rw [h]
  rfl

theorem items_completed {key : String} (hkey : rule.generatedKey? name = some key)
    (hlacks : lacksKey key s = true) :
    itemLists (completed rule name s).findings.edits =
      appendName key (itemLists s.findings.edits) := by
  unfold completed
  simp only [hkey, hlacks, if_true]
  exact itemLists_addKeyColumn key s

theorem lacksKey_of {key : String} (hindex : s.generatedKeyIndex? = none)
    (hkeys : s.generatedKeys = []) (hcolumns : namesKey (some key) s.columns = false)
    (hrows : s.rows ≠ []) (hforms : ∀ r ∈ s.rows, r.form = .values) : lacksKey key s = true := by
  have hnone : s.columns.any (fun c => sameName c.name key) = false := by
    simpa [namesKey, ShardingRule.isGeneratedKey, sameName_comm key] using hcolumns
  have hall : s.rows.all (fun r => r.form == .values) = true := by
    simpa using hforms
  unfold lacksKey
  rw [hindex, hkeys, hnone, hall]
  simpa using hrows

theorem rowKeys_length {values : List (Option Expression)} (hgiven : GivesKey key? cols values)
    (hlength : values.length = cols.length) :
    (rowKeys key? cols values).length + (otherColumns key? cols).length = cols.length := by
  induction cols generalizing values with
  | nil => rfl
  | cons c cols ih =>
    obtain ⟨value, values, rfl⟩ : ∃ value rest, values = value :: rest :=
      List.exists_cons_of_length_eq_add_one hlength
    have hrest : GivesKey key? cols values := fun p hp => hgiven p (List.mem_cons_of_mem _ hp)
    have hlen := ih hrest (by simpa using hlength)
    by_cases hkey : ShardingRule.isGeneratedKey key? c.name = true
    · obtain ⟨e, he⟩ := Option.isSome_iff_exists.1 (hgiven (c, value) (by simp) hkey)
      simp only at he
      simp [rowKeys, otherColumns, givenKey?, he, hkey] at hlen ⊢
      omega
    · have hnone : givenKey? key? c value = none := by
        cases value <;> simp [givenKey?, hkey]
      simp [rowKeys, otherColumns, hnone, hkey] at hlen ⊢
      omega

/-! ## Agreement -/

structure KeyLeftOut (rule : ShardingRule) (name : String) (names : List String)
    (i : InsertStatement) : Prop where
  keys : i.generatedKeys = []
  items : ∀ key, rule.generatedKey? name = some key →
    itemLists i.findings.edits = [otherNames (some key) names ++ [key]]

structure KeyInEachRow (rule : ShardingRule) (name : String) (rows : List (List (List Token)))
    (i : InsertStatement) : Prop where
  keys : i.generatedKeys =
    (rowsValues? 0 rows).flatMap (rowKeys (rule.generatedKey? name) i.columns)
  single : ∀ values ∈ rowsValues? 0 rows,
    (rowKeys (rule.generatedKey? name) i.columns values).length = 1

structure RowsAgree (rule : ShardingRule) (name : String) (names : List String)
    (rows : List (List (List Token))) (i : InsertStatement) : Prop where
  length : ∀ vs ∈ rows, vs.length = i.columns.length
  key : KeyLeftOut rule name names i ∨ KeyInEachRow rule name rows i

/-- All rows are as long as the list of the catalog, which names the key at most once, or as long
as the list without the key. -/
inductive RowsFit (key? : Option String) (names : List String) (rows : List (List (List Token))) :
    Prop
  | whole : names ≠ [] → names.length ≤ (otherNames key? names).length + 1 →
      (∀ vs ∈ rows, vs.length = names.length) → RowsFit key? names rows
  | others : otherNames key? names ≠ [] → (otherNames key? names).length < names.length →
      (∀ vs ∈ rows, vs.length = (otherNames key? names).length) → RowsFit key? names rows

theorem namesKey_catalogList : namesKey key? (catalogList name names) = true ↔
    (otherNames key? names).length < names.length := by
  unfold namesKey catalogList otherNames
  rw [List.length_filter_lt_length_iff_exists]
  simp

theorem otherNames_length_le (key? : Option String) (names : List String) :
    (otherNames key? names).length ≤ names.length :=
  List.length_filter_le _ _

theorem tooFew_catalogList {n : ℕ} : TooFew key? (catalogList name names) n ↔
    (otherNames key? names).length < names.length ∧ n < names.length := by
  unfold TooFew
  rw [namesKey_catalogList, catalogList_length]

theorem RowsTaken.row_ne (h : RowsTaken rule name w rows v) (hrows : rows ≠ []) :
    ∃ vs ∈ rows, 0 < vs.length := by
  obtain ⟨vs, hvs⟩ := List.exists_mem_of_ne_nil rows hrows
  exact ⟨vs, hvs, List.length_pos_iff.2 (h.filled vs hvs)⟩

theorem RowsTaken.forms (h : RowsTaken rule name w rows v) (hl : w.draft.rows = [])
    (hrows : rows ≠ []) : v.draft.rows ≠ [] ∧ ∀ r ∈ v.draft.rows, r.form = .values := by
  obtain ⟨rs, hrs, hlen, hform⟩ := h.recorded
  rw [hrs, hl, List.nil_append]
  refine ⟨fun hnil => hrows ?_, hform⟩
  rw [hnil] at hlen
  exact List.length_eq_zero_iff.1 hlen.symm

theorem rowsValues?_mem {values : List (Option Expression)} {n : ℕ}
    (h : values ∈ rowsValues? n rows) : ∃ vs ∈ rows, values.length = vs.length := by
  induction rows generalizing n with
  | nil => cases h
  | cons vs rows ih =>
    rcases List.mem_cons.1 h with rfl | h
    · exact ⟨vs, by simp, rowValues?_length n vs⟩
    · obtain ⟨us, hus, hlen⟩ := ih h
      exact ⟨us, by simp [hus], hlen⟩

theorem RowsTaken.keys_length (hl : ListedBy rule name names w.draft)
    (h : RowsTaken rule name w rows v)
    (henough : ∀ vs ∈ rows, ¬TooFew (rule.generatedKey? name) w.draft.columns vs.length)
    (hlength : ∀ vs ∈ rows, vs.length = names.length) :
    ∀ values ∈ rowsValues? 0 rows,
      (rowKeys (rule.generatedKey? name) (catalogList name names) values).length +
        (otherNames (rule.generatedKey? name) names).length = names.length := by
  intro values hmem
  obtain ⟨vs, hvs, hlen⟩ := rowsValues?_mem hmem
  have hgiven := (h.enough henough).given
  rw [hl.columns, hl.placeholders] at hgiven
  have hcount := rowKeys_length (hgiven values hmem)
    (by rw [hlen, hlength vs hvs, catalogList_length])
  rwa [otherColumns_catalogList, catalogList_length, catalogList_length] at hcount

theorem keyLeftOut_unlisted (hl : ListedBy rule name names w.draft)
    (h : RowsTaken rule name w rows v) (hrows : rows ≠ [])
    (henough : ∀ vs ∈ rows, ¬TooFew (rule.generatedKey? name) w.draft.columns vs.length)
    (hlength : ∀ vs ∈ rows, vs.length = names.length)
    (hunlisted : names.length ≤ (otherNames (rule.generatedKey? name) names).length) :
    KeyLeftOut rule name names (completed rule name v.draft) := by
  have hwhole := h.enough henough
  have hnone : namesKey (rule.generatedKey? name) (catalogList name names) = false := by
    rw [← Bool.not_eq_true, namesKey_catalogList]
    exact not_lt.2 hunlisted
  have hempty : v.draft.generatedKeys = [] := by
    rw [hwhole.keys, hl.keys, hl.columns, hl.placeholders, List.nil_append,
      List.flatMap_eq_nil_iff]
    intro values hvalues
    have hcount := h.keys_length hl henough hlength values hvalues
    exact List.length_eq_zero_iff.1 (by omega)
  constructor
  · rw [completed_keys, hempty]
  · intro key hsome
    obtain ⟨hrec, hforms⟩ := h.forms hl.rows hrows
    have hindex : v.draft.generatedKeyIndex? = none := by
      rw [hwhole.list.index]
      exact hl.index (hl.columns ▸ hnone)
    have hlacks : lacksKey key v.draft = true := by
      refine lacksKey_of hindex hempty ?_ hrec hforms
      rw [hwhole.list.columns, hl.columns, ← hsome]
      exact hnone
    rw [items_completed hsome hlacks, hwhole.list.items, hl.items]
    have hnames : otherNames (some key) names = names := by
      rw [← hsome]
      exact List.filter_sublist.eq_of_length_le hunlisted
    rw [hnames]
    rfl

theorem rowsAgree_whole (hl : ListedBy rule name names w.draft) (h : RowsTaken rule name w rows v)
    (hrows : rows ≠ [])
    (henough : ∀ vs ∈ rows, ¬TooFew (rule.generatedKey? name) w.draft.columns vs.length) :
    RowsAgree rule name names rows (completed rule name v.draft) ↔
      RowsFit (rule.generatedKey? name) names rows := by
  have hwhole := h.enough henough
  have hcolumns : (completed rule name v.draft).columns = catalogList name names := by
    rw [completed_columns, hwhole.list.columns, hl.columns]
  have hkeys : (completed rule name v.draft).generatedKeys = (rowsValues? 0 rows).flatMap
      (rowKeys (rule.generatedKey? name) (catalogList name names)) := by
    rw [completed_keys, hwhole.keys, hl.keys, hl.columns, hl.placeholders, List.nil_append]
  obtain ⟨first, hfirst, hpos⟩ := h.row_ne hrows
  obtain ⟨values, hvalues⟩ : ∃ values, values ∈ rowsValues? 0 rows := by
    cases rows with
    | nil => exact (hrows rfl).elim
    | cons vs rows => exact ⟨_, List.mem_cons_self⟩
  have hle := otherNames_length_le (rule.generatedKey? name) names
  constructor
  · rintro ⟨hlength, hkey⟩
    rw [hcolumns, catalogList_length] at hlength
    have hcount := h.keys_length hl henough hlength values hvalues
    refine .whole ?_ ?_ hlength
    · rw [hlength first hfirst] at hpos
      exact List.length_pos_iff.1 hpos
    · rcases hkey with hkey | hkey
      · have hnil := hkeys.symm.trans hkey.keys
        rw [List.flatMap_eq_nil_iff] at hnil
        rw [hnil values hvalues, List.length_nil] at hcount
        omega
      · have hone := hkey.single values hvalues
        rw [hcolumns] at hone
        omega
  · intro hfit
    cases hfit with
    | others _ hlt hlength =>
      refine (henough first hfirst ?_).elim
      rw [hl.columns, tooFew_catalogList]
      exact ⟨hlt, by rw [hlength first hfirst]; exact hlt⟩
    | whole hne hcount hlength =>
      have hcounts := h.keys_length hl henough hlength
      refine ⟨by rwa [hcolumns, catalogList_length], ?_⟩
      by_cases hkey : (otherNames (rule.generatedKey? name) names).length < names.length
      · right
        constructor
        · rw [hkeys, hcolumns]
        · intro values hvalues
          have hone := hcounts values hvalues
          rw [hcolumns]
          omega
      · exact Or.inl (keyLeftOut_unlisted hl h hrows henough hlength (not_lt.1 hkey))

/-- Rows that are all too short leave the key to the program. -/
theorem RowsTaken.lacksKey {key : String} (h : RowsTaken rule name w rows v)
    (hl : ListedBy rule name names w.draft) (hrows : rows ≠ [])
    (hkey : rule.generatedKey? name = some key)
    (hall : ∀ vs ∈ rows, TooFew (rule.generatedKey? name) w.draft.columns vs.length) :
    lacksKey key v.draft = true := by
  obtain ⟨short, hmem⟩ := List.exists_mem_of_ne_nil rows hrows
  have hcut := h.short ⟨short, hmem, hall short hmem⟩
  obtain ⟨hrec, hforms⟩ := h.forms hl.rows hrows
  refine lacksKey_of hcut.index (by rw [h.keys hall, hl.keys]) ?_ hrec hforms
  rw [hcut.columns, ← hkey]
  exact namesKey_otherColumns

theorem keyLeftOut_shortened (hl : ListedBy rule name names w.draft)
    (h : RowsTaken rule name w rows v) (hrows : rows ≠ [])
    (hall : ∀ vs ∈ rows, TooFew (rule.generatedKey? name) w.draft.columns vs.length) :
    KeyLeftOut rule name names (completed rule name v.draft) := by
  obtain ⟨short, hmem⟩ := List.exists_mem_of_ne_nil rows hrows
  have hcut := h.short ⟨short, hmem, hall short hmem⟩
  constructor
  · rw [completed_keys, h.keys hall, hl.keys]
  · intro key hsome
    have hlacks := h.lacksKey hl hrows hsome hall
    rw [items_completed hsome hlacks, hcut.items key hsome, hl.items]
    have hnames : otherNames (some key) names = names.filter fun n => !sameName n key := by
      unfold otherNames ShardingRule.isGeneratedKey
      simp only [Option.any_some, sameName_comm]
    rw [hnames]
    rfl

theorem rowsAgree_shortened (hl : ListedBy rule name names w.draft)
    (h : RowsTaken rule name w rows v) (hrows : rows ≠ [])
    (hshort : ∃ vs ∈ rows, TooFew (rule.generatedKey? name) w.draft.columns vs.length) :
    RowsAgree rule name names rows (completed rule name v.draft) ↔
      RowsFit (rule.generatedKey? name) names rows := by
  have hcut := h.short hshort
  obtain ⟨short, hmem, hfew⟩ := hshort
  rw [hl.columns, tooFew_catalogList] at hfew
  have hcolumns : (completed rule name v.draft).columns =
      catalogList name (otherNames (rule.generatedKey? name) names) := by
    rw [completed_columns, hcut.columns, hl.columns, otherColumns_catalogList]
  obtain ⟨first, hfirst, hpos⟩ := h.row_ne hrows
  constructor
  · rintro ⟨hlength, -⟩
    rw [hcolumns, catalogList_length] at hlength
    refine .others ?_ hfew.1 hlength
    rw [hlength first hfirst] at hpos
    exact List.length_pos_iff.1 hpos
  · intro hfit
    cases hfit with
    | whole _ _ hlength =>
      rw [hlength short hmem] at hfew
      exact (lt_irrefl _ hfew.2).elim
    | others _ hlt hlength =>
      refine ⟨by rwa [hcolumns, catalogList_length], Or.inl (keyLeftOut_shortened hl h hrows ?_)⟩
      intro vs hvs
      rw [hl.columns, tooFew_catalogList, hlength vs hvs]
      exact ⟨hlt, hlt⟩

/-! ## The statement -/

inductive SpellsBareInsert (d : Dialect) (table : Token) (rows : List (List (List Token))) :
    List Token → Prop
  | intro {i n v : Token} {rs : List Token} : i.type = .keyword .INSERT →
      n.type = .keyword .INTO → v.type ∈ keywordTypes (.VALUES :: d.grammar.valuesSynonyms) →
      Joined (.symbol .comma) SpellsRow rows rs →
      SpellsBareInsert d table rows (i :: n :: table :: v :: rs)

structure EndsInsert (more : List Token) : Prop extends EndsRows more where
  set : frontType more ≠ .keyword .SET
  on : frontType more ≠ .keyword .ON

theorem values_not_between {t : Token}
    (h : t.type ∈ keywordTypes (.VALUES :: d.grammar.valuesSynonyms)) :
    t.type ∉ [TokenType.symbol .dot, .symbol .leftParen] ++
      keywordTypes d.grammar.betweenTableAndValues := by
  generalize t.type = x at h
  revert x
  cases d <;> decide

theorem achieves_bareHead {ins into values : Token} (hinto : into.type = .keyword .INTO)
    (hvalues : values.type ∈ keywordTypes (.VALUES :: w.cursor.dialect.grammar.valuesSynonyms))
    (hcatalog : catalog.containsTable (unquoted table.literals) = true)
    (hw : w.cursor.Passes (ins :: into :: table :: values :: ts) tail) (hd : w.draft = {}) :
    Achieves w (insertionHead rule catalog) fun _ v => v.cursor.Passes (values :: ts) tail ∧
      ∃ start, v.draft =
        catalogColumns rule catalog (unquoted table.literals) start (targetDraft table) := by
  unfold insertionHead
  apply (achieves_advance hw).bind
  intro _ v₁ h₁
  have hplain : frontType (values :: ts ++ tail) ∉ [TokenType.symbol .dot, .symbol .leftParen] ++
      keywordTypes v₁.cursor.dialect.grammar.betweenTableAndValues := by
    rw [Cursor.advance_dialect h₁.advance]
    exact values_not_between hvalues
  simp only [List.mem_append, List.mem_cons, List.not_mem_nil, or_false, not_or] at hplain
  apply (achieves_intoClause hinto hplain.1.1 hplain.2 h₁.passes (h₁.draft.trans hd)).bind
  rintro _ v₂ ⟨hv₂, hd₂⟩
  apply (achieves_catalogColumns hv₂ hd₂ hplain.1.2 hcatalog).bind
  rintro _ v₃ ⟨hc₃, hd₃⟩
  rw [← hc₃] at hv₂
  apply (achieves_listEnd hvalues hv₂).mono
  rintro _ _ rfl
  exact ⟨hv₂, hd₃⟩

theorem achieves_insertionEnd (hset : w.cursor.current.type ≠ .keyword .SET)
    (hon : w.cursor.current.type ≠ .keyword .ON)
    (htables : w.draft.findings.tables = ⟨[⟨name, none⟩]⟩) :
    Achieves w (insertionEnd rule) fun _ v => v.draft = completed rule name w.draft := by
  unfold insertionEnd
  apply (achieves_noAssignments hset).bind
  rintro _ v rfl
  apply (achieves_noDuplicates hon).bind
  rintro _ x rfl
  exact achieves_completeKey htables

theorem settles_insertionBody {values : Token}
    (hvalues : values.type ∈ keywordTypes (.VALUES :: w.cursor.dialect.grammar.valuesSynonyms))
    (hrows : Joined (.symbol .comma) SpellsRow rows ts) (htail : EndsInsert tail)
    (htable : w.draft.findings.tables = ⟨[⟨name, none⟩]⟩)
    (hw : w.cursor.Passes (values :: ts) tail) :
    Settles w (insertionBody rule) (fun _ v => ∃ x, RowsTaken rule name w rows x ∧
      v.draft = completed rule name x.draft) fun _ => True := by
  rw [insertionBody_split]
  apply Settles.bind (settles_rows hvalues hrows htail.toEndsRows htable
    (RowsTaken.invariant w rows tail) hw .nil).withRun
  rintro _ x ⟨⟨hx, hread⟩, hrun⟩
  have htables : x.draft.findings.tables = ⟨[⟨name, none⟩]⟩ := by
    have hp := valuesClause_progress (N := fun _ => False) (T := False) hrun
    exact hp.tables_eq.trans htable
  apply Achieves.settles
  apply (achieves_insertionEnd (hx.type ▸ htail.set) (hx.type ▸ htail.on) htables).mono
  exact fun _ v hv => ⟨x, hread, hv⟩

theorem settles_bareRows (hs : SpellsBareInsert w.cursor.dialect table rows ts)
    (htail : EndsInsert tail) (hcatalog : catalog.containsTable (unquoted table.literals) = true)
    (hw : w.cursor.Passes ts tail) (hd : w.draft = {}) :
    Settles w (insertion rule catalog) (fun _ x => ∃ u v,
      ListedBy rule (unquoted table.literals) (catalog.columns (unquoted table.literals)) u.draft ∧
        RowsTaken rule (unquoted table.literals) u rows v ∧
        x.draft = completed rule (unquoted table.literals) v.draft) fun _ => True := by
  obtain @⟨ins, into, values, rs, hins, hinto, hvalues, hrows⟩ := hs
  rw [insertion_split]
  apply Achieves.bind (achieves_bareHead hinto hvalues hcatalog hw hd).withRun
  rintro _ u ⟨⟨hu, start, hud⟩, hrun⟩
  have hlisted := listedBy_catalogColumns rule catalog table start
  rw [← hud] at hlisted
  have hdialect : u.cursor.dialect = w.cursor.dialect := (insertionHead_reaches hrun).dialect
  apply (settles_insertionBody (hdialect ▸ hvalues) hrows htail hlisted.tables hu).mono
  rintro _ x ⟨v, hread, hx⟩
  exact ⟨u, v, hlisted, hread, hx⟩

theorem SpellsBareInsert.ne_nil (hs : SpellsBareInsert d table rows ts) : rows ≠ [] := by
  cases hs with
  | intro _ _ _ hrows => exact hrows.ne_nil

theorem settles_bareInsertion (hs : SpellsBareInsert w.cursor.dialect table rows ts)
    (htail : EndsInsert tail) (hcatalog : catalog.containsTable (unquoted table.literals) = true)
    (hw : w.cursor.Passes ts tail) (hd : w.draft = {}) :
    Settles w (insertion rule catalog) (fun _ v =>
      RowsAgree rule (unquoted table.literals) (catalog.columns (unquoted table.literals)) rows
          v.draft ↔
        RowsFit (rule.generatedKey? (unquoted table.literals))
          (catalog.columns (unquoted table.literals)) rows) fun _ => True := by
  apply (settles_bareRows hs htail hcatalog hw hd).mono
  rintro _ x ⟨u, v, hlisted, hread, hx⟩
  rw [hx]
  by_cases hshort : ∃ vs ∈ rows,
      TooFew (rule.generatedKey? (unquoted table.literals)) u.draft.columns vs.length
  · exact rowsAgree_shortened hlisted hread hs.ne_nil hshort
  · refine rowsAgree_whole hlisted hread hs.ne_nil fun vs hvs hfew => ?_
    exact hshort ⟨vs, hvs, hfew⟩

/-- Sorting the edits changes nothing of this. -/
theorem rowsAgree_sorted : RowsAgree rule name names rows i.sorted ↔
    RowsAgree rule name names rows i := by
  have hperm : (Edit.sorted i.findings.edits).Perm i.findings.edits := List.mergeSort_perm _ _
  have hkey : KeyLeftOut rule name names i.sorted ↔ KeyLeftOut rule name names i := by
    constructor
    · exact fun h => ⟨h.keys, fun key hkey => itemLists_perm hperm (h.items key hkey)⟩
    · exact fun h => ⟨h.keys, fun key hkey => itemLists_perm hperm.symm (h.items key hkey)⟩
  constructor
  · rintro ⟨hlength, hleft | hrow⟩
    · exact ⟨hlength, Or.inl (hkey.1 hleft)⟩
    · exact ⟨hlength, Or.inr ⟨hrow.keys, hrow.single⟩⟩
  · rintro ⟨hlength, hleft | hrow⟩
    · exact ⟨hlength, Or.inl (hkey.2 hleft)⟩
    · exact ⟨hlength, Or.inr ⟨hrow.keys, hrow.single⟩⟩

/-- In an accepted INSERT with the columns of the catalog all rows have a value for each column of
the statement, and all or none of them give the generated key a value, exactly if all rows are as
long as the list of the catalog or all as long as that list without the key. -/
theorem rows_agree_iff {sql : String} (hts : (TokenStream.ofText d sql.toList).tokens = ts ++ tail)
    (hs : SpellsBareInsert d table rows ts) (htail : EndsInsert tail)
    (hend : tail = [] → ∃ t, (TokenStream.ofText d sql.toList).ending = .ok t)
    (hcatalog : catalog.containsTable (unquoted table.literals) = true) (s : Statement)
    (hp : parse d rule catalog sql = .ok s) :
    ∃ i, s = .insert i ∧
      (RowsAgree rule (unquoted table.literals) (catalog.columns (unquoted table.literals)) rows i ↔
        RowsFit (rule.generatedKey? (unquoted table.literals))
          (catalog.columns (unquoted table.literals)) rows) := by
  obtain ⟨ins, rest, rfl, hins⟩ : ∃ ins rest, ts = ins :: rest ∧ ins.type = .keyword .INSERT := by
    obtain ⟨hins⟩ := hs
    exact ⟨_, _, rfl, hins⟩
  have hread := parse_insertion rule catalog hts hins hend fun c hc hpass =>
    settles_bareInsertion (w := ⟨c, {}⟩) (hc ▸ hs) htail hcatalog hpass rfl
  rcases hread with ⟨v, hv, hok⟩ | ⟨f, -, herror⟩
  · rw [hp] at hok
    refine ⟨_, Except.ok.inj hok, ?_⟩
    rwa [rowsAgree_sorted]
  · rw [hp] at herror
    cases herror

theorem rows_agree_iff_others : ∃ i,
    parse .mysql ⟨[("t_order", ⟨["user_id"], some "order_id"⟩)], none⟩
      ⟨[("t_order", ["order_id", "user_id"])]⟩ "INSERT INTO t_order VALUES (1), (2)" =
        .ok (.insert i) ∧
    RowsAgree ⟨[("t_order", ⟨["user_id"], some "order_id"⟩)], none⟩ "t_order"
      ["order_id", "user_id"] [[[⟨.literal .int, "1", 28, 29⟩]], [[⟨.literal .int, "2", 33, 34⟩]]]
      i := by
  have hrow : ∀ (t : Token) (m n : ℕ), t.type = .literal .int → SpellsRow [[t]]
      [⟨.symbol .leftParen, "(", m, m + 1⟩, t, ⟨.symbol .rightParen, ")", n, n + 1⟩] := by
    intro t m n ht
    exact .filled (.intro rfl (.single ⟨.token (by rw [ht]; decide), rfl⟩) rfl)
  have hs : SpellsBareInsert .mysql ⟨.literal .identifier, "t_order", 12, 19⟩ _ _ := .intro
    (i := ⟨.keyword .INSERT, "INSERT", 0, 6⟩) (n := ⟨.keyword .INTO, "INTO", 7, 11⟩)
    (v := ⟨.keyword .VALUES, "VALUES", 20, 26⟩) rfl rfl (by decide)
    (.cons (hrow ⟨.literal .int, "1", 28, 29⟩ 27 29 rfl) (s := ⟨.symbol .comma, ",", 30, 31⟩) rfl
      (.single (hrow ⟨.literal .int, "2", 33, 34⟩ 32 34 rfl)))
  obtain ⟨s, hparse, -⟩ := parse_of_view .mysql
    ⟨[("t_order", ⟨["user_id"], some "order_id"⟩)], none⟩ ⟨[("t_order", ["order_id", "user_id"])]⟩
    "INSERT INTO t_order VALUES (1), (2)" (fun _ => ()) () (by decide +kernel)
  have hend : EndsInsert [] := ⟨⟨rfl, by decide, by decide⟩, by decide, by decide⟩
  obtain ⟨i, rfl, hiff⟩ := rows_agree_iff (by decide +kernel) hs hend
    (fun _ => ⟨Token.atEnd 35, by decide +kernel⟩) (by decide +kernel) s hparse
  refine ⟨i, hparse, hiff.2 (.others ?_ ?_ ?_)⟩
  · decide +kernel
  · decide +kernel
  · intro vs hvs
    simp only [List.mem_cons, List.not_mem_nil, or_false] at hvs
    rcases hvs with rfl | rfl <;> decide +kernel

/-- A row that is too short behind one that is not is accepted, and the rows do not agree. -/
theorem short_row_behind_whole_row : ∃ (i : InsertStatement) (ts : List Token),
    (TokenStream.ofText .mysql "INSERT INTO t_order VALUES (1, 2), (3)".toList).tokens = ts ∧
    SpellsBareInsert .mysql ⟨.literal .identifier, "t_order", 12, 19⟩
      [[[⟨.literal .int, "1", 28, 29⟩], [⟨.literal .int, "2", 31, 32⟩]],
        [[⟨.literal .int, "3", 36, 37⟩]]] ts ∧
    parse .mysql ⟨[("t_order", ⟨["user_id"], some "order_id"⟩)], none⟩
      ⟨[("t_order", ["order_id", "user_id"])]⟩ "INSERT INTO t_order VALUES (1, 2), (3)" =
        .ok (.insert i) ∧
    i.columns = [⟨"user_id", "t_order"⟩] ∧ i.generatedKeys.length = 1 ∧
    ¬RowsAgree ⟨[("t_order", ⟨["user_id"], some "order_id"⟩)], none⟩ "t_order"
      ["order_id", "user_id"]
      [[[⟨.literal .int, "1", 28, 29⟩], [⟨.literal .int, "2", 31, 32⟩]],
        [[⟨.literal .int, "3", 36, 37⟩]]] i := by
  have hfirst : SpellsRow [[⟨.literal .int, "1", 28, 29⟩], [⟨.literal .int, "2", 31, 32⟩]] _ :=
    .filled (.intro (l := ⟨.symbol .leftParen, "(", 27, 28⟩)
      (r := ⟨.symbol .rightParen, ")", 32, 33⟩) rfl
      (.cons ⟨.token (by decide), rfl⟩ (s := ⟨.symbol .comma, ",", 29, 30⟩) rfl
        (.single ⟨.token (by decide), rfl⟩)) rfl)
  have hsecond : SpellsRow [[⟨.literal .int, "3", 36, 37⟩]] _ :=
    .filled (.intro (l := ⟨.symbol .leftParen, "(", 35, 36⟩)
      (r := ⟨.symbol .rightParen, ")", 37, 38⟩) rfl (.single ⟨.token (by decide), rfl⟩) rfl)
  have hs : SpellsBareInsert .mysql ⟨.literal .identifier, "t_order", 12, 19⟩ _ _ := .intro
    (i := ⟨.keyword .INSERT, "INSERT", 0, 6⟩) (n := ⟨.keyword .INTO, "INTO", 7, 11⟩)
    (v := ⟨.keyword .VALUES, "VALUES", 20, 26⟩) rfl rfl (by decide)
    (.cons hfirst (s := ⟨.symbol .comma, ",", 33, 34⟩) rfl (.single hsecond))
  obtain ⟨s, hparse, hview⟩ := parse_of_view .mysql
    ⟨[("t_order", ⟨["user_id"], some "order_id"⟩)], none⟩ ⟨[("t_order", ["order_id", "user_id"])]⟩
    "INSERT INTO t_order VALUES (1, 2), (3)"
    (fun s => (insertion? s).map fun i => (i.columns, i.generatedKeys.length))
    (some ([⟨"user_id", "t_order"⟩], 1)) (by decide +kernel)
  obtain ⟨i, hi, hparts⟩ := Option.map_eq_some_iff.1 hview
  obtain rfl := eq_insert_of_insertion? hi
  obtain ⟨hcolumns, hkeys⟩ := Prod.mk.inj hparts
  refine ⟨i, _, by decide +kernel, hs, hparse, hcolumns, hkeys, fun h => ?_⟩
  have hlength := h.length _ List.mem_cons_self
  rw [hcolumns] at hlength
  cases hlength

end SqlFront

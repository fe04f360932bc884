import SqlFront.Proofs.Insertion.Statement

/-!
# Rows for the columns of the catalog

An INSERT without a column list takes the columns that the catalog has of its table. A row that is
too short for them takes the generated key out of the list, for itself and for the rows behind it;
the rows before it have been given to the longer list already.
-/

set_option autoImplicit false

namespace SqlFront

open SqlFront.Parser SqlFront.Clause SqlFront.Reading

variable {d : Dialect} {rule : ShardingRule} {catalog : Catalog} {name : String}
  {key? : Option String} {cols : List Column} {names : List String}
  {w v x : Workspace InsertStatement} {s : InsertStatement} {ts us more : List Token}
  {vs : List (List Token)} {rows : List (List (List Token))}

/-! ## The column list -/

def otherColumns (key? : Option String) (cols : List Column) : List Column :=
  cols.filter fun c => !ShardingRule.isGeneratedKey key? c.name

def otherNames (key? : Option String) (names : List String) : List String :=
  names.filter fun n => !ShardingRule.isGeneratedKey key? n

def TooFew (key? : Option String) (cols : List Column) (n : ℕ) : Prop :=
  namesKey key? cols = true ∧ n < cols.length

theorem namesKey_otherColumns : namesKey key? (otherColumns key? cols) = false := by
  simp [namesKey, otherColumns]

theorem otherColumns_length_lt (h : namesKey key? cols = true) :
    (otherColumns key? cols).length < cols.length := by
  unfold namesKey at h
  rw [List.any_eq_true] at h
  obtain ⟨c, hc, hkey⟩ := h
  exact List.length_filter_lt_length_iff_exists.2 ⟨c, hc, by simpa using hkey⟩

structure SameList (s t : InsertStatement) : Prop where
  columns : t.columns = s.columns
  index : t.generatedKeyIndex? = s.generatedKeyIndex?
  items : itemLists t.findings.edits = itemLists s.findings.edits

structure Shortened (key? : Option String) (s t : InsertStatement) : Prop where
  columns : t.columns = otherColumns key? s.columns
  index : t.generatedKeyIndex? = none
  items : ∀ key, key? = some key →
    itemLists t.findings.edits = dropName key (itemLists s.findings.edits)

theorem SameList.trans {t u : InsertStatement} (h : SameList s t) (h' : SameList t u) :
    SameList s u :=
  ⟨h'.columns.trans h.columns, h'.index.trans h.index, h'.items.trans h.items⟩

theorem SameList.shortened {t u : InsertStatement} (h : SameList s t) (h' : Shortened key? t u) :
    Shortened key? s u := by
  constructor
  · rw [h'.columns, h.columns]
  · exact h'.index
  · intro key hkey
    rw [h'.items key hkey, h.items]

theorem Shortened.same {t u : InsertStatement} (h : Shortened key? s t) (h' : SameList t u) :
    Shortened key? s u := by
  constructor
  · rw [h'.columns, h.columns]
  · rw [h'.index, h.index]
  · intro key hkey
    rw [h'.items, h.items key hkey]

theorem shortenColumns_enough {n : ℕ} (h : ¬TooFew key? s.columns n) :
    shortenColumns key? n s = s :=
  shortenColumns_eq fun hkey => not_lt.1 fun hlt => h ⟨hkey, hlt⟩

theorem shortenColumns_shortened {n : ℕ} (h : TooFew key? s.columns n) :
    Shortened key? s (shortenColumns key? n s) := by
  obtain ⟨hkey, hlt⟩ := h
  cases key? with
  | none => simp [namesKey, ShardingRule.isGeneratedKey] at hkey
  | some key =>
    have hcolumns : (s.columns.filter fun c => !sameName c.name key) =
        otherColumns (some key) s.columns := by
      unfold otherColumns ShardingRule.isGeneratedKey
      simp only [Option.any_some, sameName_comm]
    have hne : (s.columns.filter fun c => !sameName c.name key).length ≠ s.columns.length := by
      rw [hcolumns]
      exact (otherColumns_length_lt hkey).ne
    unfold shortenColumns
    simp only [if_pos hlt]
    constructor
    · unfold removeKeyColumn
      simp only [if_neg hne]
      exact hcolumns
    · unfold removeKeyColumn
      simp only [if_neg hne]
    · intro key' hkey'
      obtain rfl := Option.some.inj hkey'
      exact itemLists_removeKeyColumn hne

theorem SameList.shorten {t : InsertStatement} (h : SameList s t) (n : ℕ) :
    SameList (shortenColumns key? n s) (shortenColumns key? n t) := by
  by_cases hfew : TooFew key? s.columns n
  · have hs := shortenColumns_shortened hfew
    have ht := shortenColumns_shortened (h.columns ▸ hfew : TooFew key? t.columns n)
    constructor
    · rw [ht.columns, hs.columns, h.columns]
    · rw [ht.index, hs.index]
    · cases key? with
      | none => simp [TooFew, namesKey, ShardingRule.isGeneratedKey] at hfew
      | some key => rw [ht.items key rfl, hs.items key rfl, h.items]
  · rw [shortenColumns_enough hfew, shortenColumns_enough (h.columns ▸ hfew)]
    exact h

theorem shortenColumns_rest (key? : Option String) (n : ℕ) (s : InsertStatement) :
    (shortenColumns key? n s).generatedKeys = s.generatedKeys ∧
      (shortenColumns key? n s).rows = s.rows ∧
      SameFindings (shortenColumns key? n s).findings s.findings := by
  cases key? with
  | none => exact ⟨rfl, rfl, rfl, rfl, rfl⟩
  | some key =>
    unfold shortenColumns removeKeyColumn
    simp only
    split
    · split <;> exact ⟨rfl, rfl, rfl, rfl, rfl⟩
    · exact ⟨rfl, rfl, rfl, rfl, rfl⟩

/-! ## One row -/

structure RowTaken (rule : ShardingRule) (table : String) (vs : List (List Token))
    (w v : Workspace InsertStatement) : Prop where
  filled : vs ≠ []
  list : SameList (shortenColumns (rule.generatedKey? table) vs.length w.draft) v.draft
  keys : v.draft.generatedKeys = w.draft.generatedKeys ++
    rowKeys (rule.generatedKey? table) v.draft.columns
      (rowValues? w.draft.findings.placeholders vs)
  given : GivesKey (rule.generatedKey? table) v.draft.columns
    (rowValues? w.draft.findings.placeholders vs)
  rows : ∃ r, v.draft.rows = w.draft.rows ++ [r] ∧ r.form = .values
  placeholders : v.draft.findings.placeholders =
    w.draft.findings.placeholders + placeholderCount vs.flatten

theorem settles_takenRow (hs : SpellsFilled vs ts) (hw : w.cursor.Passes (ts ++ us) more) :
    Settles w (valuesRow rule name) (fun _ v => v.cursor.Passes us more ∧
      RowTaken rule name vs w v) fun _ => True := by
  apply settles_valuesRow hs (fun _ _ => trivial) hw
  intro place es v hv hvalues hpassed
  have hlength := length_of_values hvalues
  obtain ⟨edits, hdraft⟩ := hpassed.counts
  have hlist : SameList w.draft v.draft := ⟨by rw [hdraft], by rw [hdraft], hpassed.items⟩
  have hshort : SameList (shortenColumns (rule.generatedKey? name) es.length w.draft)
      (shortenColumns (rule.generatedKey? name) es.length v.draft) := hlist.shorten es.length
  have hrest := shortenColumns_rest (rule.generatedKey? name) es.length v.draft
  unfold recordRow
  apply settles_modifyDraft.2
  apply settles_draft.2
  generalize shortenColumns (rule.generatedKey? name) es.length v.draft = t at hshort hrest ⊢
  obtain ⟨hkeys, hrows, hfound⟩ := hrest
  by_cases hlen : (!t.columns.isEmpty && t.columns.length != es.length) = true
  · rw [if_pos hlen]
    exact trivial
  rw [if_neg hlen]
  apply (settles_recordValues fun _ _ _ _ _ => trivial).mono
  rintro _ x ⟨hc, hd, hgiven⟩
  have hcolumns : x.draft.columns = t.columns := by rw [hd]; rfl
  refine ⟨hc ▸ hv, ?_⟩
  constructor
  · obtain @⟨_, _, _, -, hvs, -⟩ := hs
    exact hvs.ne_nil
  · rw [← hlength]
    exact ⟨by rw [hcolumns, hshort.columns], by rw [← hshort.index, hd]; rfl,
      by rw [← hshort.items, hd]; rfl⟩
  · rw [hcolumns, ← hvalues, rowKeys_map, hd]
    change t.generatedKeys ++ _ = _
    rw [hkeys, hdraft]
  · rw [hcolumns, ← hvalues]
    unfold GivesKey
    rw [List.zip_map_right, List.forall_mem_map]
    exact hgiven
  · rw [hd]
    exact ⟨_, congrArg (· ++ [_]) (hrows.trans (by rw [hdraft])), rfl⟩
  · rw [hd]
    change t.findings.placeholders = _
    rw [hfound.placeholders, hdraft]
    rfl

theorem rowKeys_eq_nil (h : namesKey key? cols = false) (values : List (Option Expression)) :
    rowKeys key? cols values = [] := by
  unfold rowKeys
  rw [List.filterMap_eq_nil_iff]
  rintro ⟨c, value?⟩ hp
  have hc := List.any_eq_false.1 h c (List.of_mem_zip hp).1
  cases value? <;> simp [givenKey?, hc]

theorem rowKeys_otherColumns (values : List (Option Expression)) :
    rowKeys key? (otherColumns key? cols) values = [] :=
  rowKeys_eq_nil namesKey_otherColumns values

/-- A list without the generated key stays as it is. -/
theorem Shortened.row (h : Shortened (rule.generatedKey? name) w.draft v.draft)
    (hv : RowTaken rule name vs v x) :
    Shortened (rule.generatedKey? name) w.draft x.draft ∧
      x.draft.generatedKeys = v.draft.generatedKeys := by
  have henough : ¬TooFew (rule.generatedKey? name) v.draft.columns vs.length := by
    rintro ⟨hkey, -⟩
    rw [h.columns, namesKey_otherColumns] at hkey
    cases hkey
  have hlist := hv.list
  rw [shortenColumns_enough henough] at hlist
  refine ⟨h.same hlist, ?_⟩
  rw [hv.keys, hlist.columns, h.columns, rowKeys_otherColumns, List.append_nil]

/-! ## All rows -/

structure GivenWhole (rule : ShardingRule) (table : String) (w : Workspace InsertStatement)
    (rows : List (List (List Token))) (v : Workspace InsertStatement) : Prop where
  list : SameList w.draft v.draft
  keys : v.draft.generatedKeys = w.draft.generatedKeys ++
    (rowsValues? w.draft.findings.placeholders rows).flatMap
      (rowKeys (rule.generatedKey? table) w.draft.columns)
  given : ∀ values ∈ rowsValues? w.draft.findings.placeholders rows,
    GivesKey (rule.generatedKey? table) w.draft.columns values

structure RowsTaken (rule : ShardingRule) (table : String) (w : Workspace InsertStatement)
    (rows : List (List (List Token))) (v : Workspace InsertStatement) : Prop where
  filled : ∀ vs ∈ rows, vs ≠ []
  enough : (∀ vs ∈ rows, ¬TooFew (rule.generatedKey? table) w.draft.columns vs.length) →
    GivenWhole rule table w rows v
  short : (∃ vs ∈ rows, TooFew (rule.generatedKey? table) w.draft.columns vs.length) →
    Shortened (rule.generatedKey? table) w.draft v.draft
  keys : (∀ vs ∈ rows, TooFew (rule.generatedKey? table) w.draft.columns vs.length) →
    v.draft.generatedKeys = w.draft.generatedKeys
  recorded : ∃ rs, v.draft.rows = w.draft.rows ++ rs ∧ rs.length = rows.length ∧
    ∀ r ∈ rs, r.form = .values
  placeholders : v.draft.findings.placeholders =
    w.draft.findings.placeholders + placeholderCount rows.flatten.flatten

theorem GivenWhole.row (h : GivenWhole rule name w rows v)
    (hplaceholders : v.draft.findings.placeholders =
      w.draft.findings.placeholders + placeholderCount rows.flatten.flatten)
    (henough : ¬TooFew (rule.generatedKey? name) w.draft.columns vs.length)
    (hv : RowTaken rule name vs v x) : GivenWhole rule name w (rows ++ [vs]) x := by
  have hlist := hv.list
  rw [shortenColumns_enough (h.list.columns ▸ henough)] at hlist
  have hcolumns : x.draft.columns = w.draft.columns := hlist.columns.trans h.list.columns
  have hgiven := hv.given
  rw [hcolumns, hplaceholders] at hgiven
  constructor
  · exact h.list.trans hlist
  · rw [hv.keys, h.keys, hcolumns, hplaceholders, rowsValues?_append]
    simp [rowsValues?]
  · rw [rowsValues?_append, List.forall_mem_append]
    exact ⟨h.given, by simpa [rowsValues?] using hgiven⟩

theorem RowsTaken.nil : RowsTaken rule name w [] w := by
  constructor
  · simp
  · exact fun _ => ⟨⟨rfl, rfl, rfl⟩, by simp [rowsValues?], by simp [rowsValues?]⟩
  · simp
  · simp
  · exact ⟨[], by simp, rfl, by simp⟩
  · simp [placeholderCount]

theorem RowsTaken.row (h : RowsTaken rule name w rows v) (hv : RowTaken rule name vs v x) :
    RowsTaken rule name w (rows ++ [vs]) x := by
  -- A row that is too short shortens the list, unless one before it has done so.
  have hshort : (∃ us ∈ rows ++ [vs], TooFew (rule.generatedKey? name) w.draft.columns us.length) →
      Shortened (rule.generatedKey? name) w.draft x.draft ∧
        x.draft.generatedKeys = v.draft.generatedKeys := by
    intro hmem
    by_cases hbefore : ∃ us ∈ rows, TooFew (rule.generatedKey? name) w.draft.columns us.length
    · exact (h.short hbefore).row hv
    · have hwhole := h.enough fun us hus hfew => hbefore ⟨us, hus, hfew⟩
      have hfew : TooFew (rule.generatedKey? name) w.draft.columns vs.length := by
        obtain ⟨us, hus, hfew⟩ := hmem
        rcases List.mem_append.1 hus with hus | hus
        · exact (hbefore ⟨us, hus, hfew⟩).elim
        · exact List.mem_singleton.1 hus ▸ hfew
      have hcut := shortenColumns_shortened (hwhole.list.columns ▸ hfew :
        TooFew (rule.generatedKey? name) v.draft.columns vs.length)
      have hx := (hwhole.list.shortened hcut).same hv.list
      refine ⟨hx, ?_⟩
      rw [hv.keys, hx.columns, rowKeys_otherColumns, List.append_nil]
  constructor
  · rw [List.forall_mem_append, List.forall_mem_singleton]
    exact ⟨h.filled, hv.filled⟩
  · intro henough
    rw [List.forall_mem_append, List.forall_mem_singleton] at henough
    exact (h.enough henough.1).row h.placeholders henough.2 hv
  · exact fun hmem => (hshort hmem).1
  · intro hall
    rw [List.forall_mem_append, List.forall_mem_singleton] at hall
    rw [(hshort ⟨vs, by simp, hall.2⟩).2, h.keys hall.1]
  · obtain ⟨rs, hrs, hlen, hform⟩ := h.recorded
    obtain ⟨r, hr, hr'⟩ := hv.rows
    refine ⟨rs ++ [r], by rw [hr, hrs, List.append_assoc], by simp [hlen], ?_⟩
    rw [List.forall_mem_append, List.forall_mem_singleton]
    exact ⟨hform, hr'⟩
  · rw [hv.placeholders, h.placeholders, List.flatten_append, List.flatten_append,
      placeholderCount_append]
    simp [Nat.add_assoc]

theorem RowsTaken.invariant (w : Workspace InsertStatement) (all : List (List (List Token)))
    (more : List Token) :
    RowInvariant rule name all (RowsTaken rule name w) (fun _ => True) more := by
  constructor
  · intro vs ts us before v _ hs hv hI
    apply (settles_takenRow hs hv).mono
    rintro _ x ⟨hx, hrow⟩
    exact ⟨hx, hI.row hrow⟩
  · intro before v x hd hI
    constructor
    · exact hI.filled
    · intro henough
      obtain ⟨hlist, hkeys, hgiven⟩ := hI.enough henough
      exact ⟨⟨by rw [hd, hlist.columns], by rw [hd, hlist.index], by rw [hd, hlist.items]⟩,
        by rw [hd, hkeys], hgiven⟩
    · intro hshort
      obtain ⟨hcolumns, hindex, hitems⟩ := hI.short hshort
      exact ⟨by rw [hd, hcolumns], by rw [hd, hindex], by rwa [hd]⟩
    · rw [hd]
      exact hI.keys
    · rw [hd]
      exact hI.recorded
    · rw [hd]
      exact hI.placeholders
  · exact fun _ _ => trivial

/-! ## The list of the catalog -/

def catalogList (table : String) (names : List String) : List Column :=
  names.map fun n => ⟨n, table⟩

theorem catalogList_length : (catalogList name names).length = names.length := List.length_map ..

theorem otherColumns_catalogList : otherColumns key? (catalogList name names) =
    catalogList name (otherNames key? names) := by
  unfold otherColumns catalogList otherNames
  rw [List.filter_map]
  rfl

theorem addColumns_columns (key? : Option String) (table : String) (names : List String)
    (s : InsertStatement) :
    (names.foldl (fun s name => addColumn key? ⟨name, table⟩ s) s).columns =
      s.columns ++ catalogList table names := by
  induction names generalizing s with
  | nil => simp [catalogList]
  | cons n names ih =>
    rw [List.foldl_cons, ih]
    simp [addColumn, catalogList]

theorem addColumns_rest (key? : Option String) (table : String) (names : List String)
    (s : InsertStatement) :
    (names.foldl (fun s name => addColumn key? ⟨name, table⟩ s) s).rows = s.rows ∧
      (namesKey key? (catalogList table names) = false →
        (names.foldl (fun s name => addColumn key? ⟨name, table⟩ s) s).generatedKeyIndex? =
          s.generatedKeyIndex?) := by
  induction names generalizing s with
  | nil => exact ⟨rfl, fun _ => rfl⟩
  | cons n names ih =>
    obtain ⟨hrows, hindex⟩ := ih (addColumn key? ⟨n, table⟩ s)
    refine ⟨hrows, fun hkey => ?_⟩
    simp only [namesKey, catalogList, List.map_cons, List.any_cons, Bool.or_eq_false_iff] at hkey
    rw [List.foldl_cons, hindex hkey.2]
    simp [addColumn, hkey.1]

structure ListedBy (rule : ShardingRule) (name : String) (names : List String)
    (s : InsertStatement) : Prop where
  columns : s.columns = catalogList name names
  index : namesKey (rule.generatedKey? name) s.columns = false → s.generatedKeyIndex? = none
  items : itemLists s.findings.edits = [names]
  keys : s.generatedKeys = []
  rows : s.rows = []
  placeholders : s.findings.placeholders = 0
  tables : s.findings.tables = ⟨[⟨name, none⟩]⟩

theorem listedBy_catalogColumns (rule : ShardingRule) (catalog : Catalog) (table : Token)
    (start : ℕ) :
    ListedBy rule (unquoted table.literals) (catalog.columns (unquoted table.literals))
      (catalogColumns rule catalog (unquoted table.literals) start (targetDraft table)) := by
  have hfindings := addColumns_findings (rule.generatedKey? (unquoted table.literals))
    (unquoted table.literals) (catalog.columns (unquoted table.literals)) (targetDraft table)
  have hcolumns := addColumns_columns (rule.generatedKey? (unquoted table.literals))
    (unquoted table.literals) (catalog.columns (unquoted table.literals)) (targetDraft table)
  have hrest := addColumns_rest (rule.generatedKey? (unquoted table.literals))
    (unquoted table.literals) (catalog.columns (unquoted table.literals)) (targetDraft table)
  unfold catalogColumns
  constructor
  · exact hcolumns
  · intro hkey
    apply hrest.2
    rwa [hcolumns] at hkey
  · simp only [hfindings.1]
    rfl
  · exact hfindings.2
  · exact hrest.1
  · simp only [hfindings.1]
    rfl
  · simp only [hfindings.1]
    rfl

theorem achieves_catalogColumns {table : Token} (hw : w.cursor.Passes ts more)
    (hd : w.draft = targetDraft table) (hparen : frontType (ts ++ more) ≠ .symbol .leftParen)
    (hcatalog : catalog.containsTable (unquoted table.literals) = true) :
    Achieves w (columnList rule catalog) fun _ v => v.cursor = w.cursor ∧
      ∃ start, v.draft =
        catalogColumns rule catalog (unquoted table.literals) start (targetDraft table) := by
  unfold columnList
  have htables : w.draft.findings.tables = ⟨[⟨unquoted table.literals, none⟩]⟩ := by
    rw [hd]
    rfl
  apply settles_insertTable htables
  apply settles_noSkip hw (by simpa using hparen)
  rw [if_neg (by simp), if_pos hcatalog]
  apply settles_current.2
  exact ⟨rfl, _, congrArg (catalogColumns _ _ _ _) hd⟩

end SqlFront

import SqlFront.Proofs.Insertion.Beside
import SqlFront.Proofs.Insertion.ListEnd
import SqlFront.Proofs.Table.Single

/-!
# An INSERT with a column list and one without

One text of an INSERT lists columns in front of its rows, and the other one leaves the list to the
catalog. Both are read up to their rows, each with its columns. Without any columns neither is
accepted.
-/

set_option autoImplicit false

namespace SqlFront

open SqlFront.Parser SqlFront.Clause SqlFront.Reading

variable {d : Dialect} {rule : ShardingRule} {catalog : Catalog} {name key : String}
  {sql sql' : String} {names : List String} {key? : Option String} {q : ℕ}
  {s s' t : InsertStatement} {w : Workspace InsertStatement} {table values r : Token}
  {cs list ts : List Token} {rows : List (List (List Token))}

/-! ## The texts -/

inductive SpellsColumns (r : Token) : List Token → List Token → Prop
  | empty {l : Token} : l.type = .symbol .leftParen → r.type = .symbol .rightParen →
      SpellsColumns r [] [l, r]
  | filled {l : Token} {cs ts : List Token} : l.type = .symbol .leftParen → SpellsNames cs ts →
      r.type = .symbol .rightParen → SpellsColumns r cs (l :: (ts ++ [r]))

/-- Two texts of an INSERT of these rows into a table. The first one has no column list, and the
second one lists columns up to the parenthesis `r`. From the word in front of the rows on they are
the same. -/
inductive BareAndListed (d : Dialect) (table values : Token) (cs : List Token) (r : Token)
    (rows : List (List (List Token))) (sql sql' : String) : Prop
  | intro {ins into ins' into' table' values' : Token} {rs tail list us : List Token} :
      (TokenStream.ofText d sql.toList).tokens = ins :: into :: table :: values :: rs ++ tail →
      SpellsBareInsert d table rows (ins :: into :: table :: values :: rs) → EndsInsert tail →
      (tail = [] → ∃ t, (TokenStream.ofText d sql.toList).ending = .ok t) →
      (TokenStream.ofText d sql'.toList).tokens =
        ins' :: into' :: table' :: (list ++ values' :: us) →
      SameWord ins ins' → SameWord into into' → SameWord table table' → SameWord values values' →
      SpellsColumns r cs list → sql.toList.drop values.stop = sql'.toList.drop values'.stop →
      BareAndListed d table values cs r rows sql sql'

theorem SpellsNames.closes (h : SpellsNames cs ts) (hr : r.type = .symbol .rightParen) :
    Closes 0 (ts ++ [r]) := by
  induction h with
  | single hc =>
    obtain ⟨hc, rfl⟩ := hc
    exact .token (by simp [hc]) (by simp [hc]) (by simp [hc]) (.last hr)
  | cons hc hs _ ih =>
    obtain ⟨hc, rfl⟩ := hc
    exact .token (by simp [hc]) (by simp [hc]) (by simp [hc])
      (.token (by simp [hs]) (by simp [hs]) (by simp [hs]) ih)

theorem SpellsColumns.enclosed (h : SpellsColumns r cs list) : SpellsEnclosed list := by
  cases h with
  | empty hl hr => exact .present hl (.last hr)
  | filled hl hcs hr => exact .present hl (hcs.closes hr)

theorem SpellsColumns.filled_of (h : SpellsColumns r cs list) (hcs : cs ≠ []) :
    ∃ l ts, list = l :: (ts ++ [r]) ∧ l.type = .symbol .leftParen ∧ SpellsNames cs ts ∧
      r.type = .symbol .rightParen := by
  cases h with
  | empty => exact (hcs rfl).elim
  | filled hl hcs hr => exact ⟨_, _, rfl, hl, hcs, hr⟩

theorem SpellsColumns.empty_of (h : SpellsColumns r [] list) :
    ∃ l, list = [l, r] ∧ l.type = .symbol .leftParen ∧ r.type = .symbol .rightParen := by
  cases h with
  | empty hl hr => exact ⟨_, rfl, hl, hr⟩
  | filled _ hcs => exact (hcs.ne_nil rfl).elim

/-! ## The statements in front of the rows -/

/-- If one name is the key, the others are one less. -/
theorem otherNames_length (hdistinct : names.Pairwise fun m n => sameName m n = false)
    (hkey : ∃ n ∈ names, sameName key n = true) :
    (otherNames (some key) names).length + 1 = names.length := by
  induction names with
  | nil => simp at hkey
  | cons n names ih =>
    obtain ⟨hn, hrest⟩ := List.pairwise_cons.1 hdistinct
    by_cases hsame : sameName key n = true
    · have hall : otherNames (some key) names = names := by
        unfold otherNames
        rw [List.filter_eq_self]
        intro m hm
        have hnot : sameName key m = false := by
          rw [← Bool.not_eq_true]
          intro hkm
          have hnm := sameName_trans (by rwa [sameName_comm] at hsame) hkm
          rw [hn m hm] at hnm
          cases hnm
        simp [ShardingRule.isGeneratedKey, hnot]
      have hcons : otherNames (some key) (n :: names) = otherNames (some key) names := by
        simp [otherNames, ShardingRule.isGeneratedKey, hsame]
      rw [hcons, hall, List.length_cons]
    · have hcons : otherNames (some key) (n :: names) = n :: otherNames (some key) names := by
        simp [otherNames, ShardingRule.isGeneratedKey, hsame]
      have hmem : ∃ m ∈ names, sameName key m = true := by
        obtain ⟨m, hm, hkm⟩ := hkey
        rcases List.mem_cons.1 hm with rfl | hm
        · exact (hsame hkm).elim
        · exact ⟨m, hm, hkm⟩
      rw [hcons, List.length_cons, ih hrest hmem, List.length_cons]

theorem sameInsertion_catalogColumns (start : ℕ) (s : InsertStatement) :
    SameInsertion (withColumns (rule.generatedKey? name) name (catalog.columns name) s)
      (catalogColumns rule catalog name start s) :=
  ⟨⟨rfl, rfl, rfl⟩, rfl, rfl, rfl, rfl⟩

theorem sameInsertion_targetDraft {table' : Token} (h : SameWord table table') :
    SameInsertion (targetDraft table) (targetDraft table') := by
  refine ⟨⟨?_, rfl, rfl⟩, rfl, rfl, rfl, rfl⟩
  unfold targetDraft
  rw [h.literals]

theorem tables_of_same
    (h : SameInsertion (withColumns key? (unquoted table.literals) names (targetDraft table)) s) :
    s.findings.tables = ⟨[⟨unquoted table.literals, none⟩]⟩ := by
  have htables := h.found.tables
  unfold withColumns at htables
  rw [(addColumns_findings _ _ _ _).1] at htables
  exact htables.symm

theorem listedWithout_of (hs : SameInsertion (withColumns key? name names t) s)
    (hs' : SameInsertion (withColumns key? name (otherNames key? names) t) s')
    (ht : t.columns = []) (hindex : t.generatedKeyIndex? = none) (hstop : s'.columnListStop = q) :
    ListedWithout key? q s s' := by
  have hother : namesKey key? (catalogList name (otherNames key? names)) = false := by
    rw [← otherColumns_catalogList]
    exact namesKey_otherColumns
  obtain ⟨hfindings, hkeys⟩ := addColumns_findings key? name names t
  obtain ⟨hfindings', hkeys'⟩ := addColumns_findings key? name (otherNames key? names) t
  obtain ⟨hrows, -⟩ := addColumns_rest key? name names t
  obtain ⟨hrows', hnone⟩ := addColumns_rest key? name (otherNames key? names) t
  have hfound := hs.found
  have hfound' := hs'.found
  unfold withColumns at hs hs' hfound hfound'
  rw [hfindings] at hfound
  rw [hfindings'] at hfound'
  constructor
  · exact ⟨hfound.tables.symm.trans hfound'.tables, hfound.conditions.symm.trans hfound'.conditions,
      hfound.placeholders.symm.trans hfound'.placeholders⟩
  · rw [← hs'.columns, ← hs.columns, addColumns_columns, addColumns_columns, ht, List.nil_append,
      List.nil_append, otherColumns_catalogList]
  · rw [← hs.keys, ← hs'.keys, hkeys, hkeys']
  · rw [← hs.rows, ← hs'.rows, hrows, hrows']
  · rw [← hs'.index, hnone hother, hindex]
  · exact hstop

structure Listed (rule : ShardingRule) (table : Token) (names : List String) (r : Token)
    (s : InsertStatement) : Prop where
  same : SameInsertion (withColumns (rule.generatedKey? (unquoted table.literals))
    (unquoted table.literals) names (targetDraft table)) s
  items : itemLists s.findings.edits = []
  stop : s.columnListStop = r.start

/-- Both texts are read up to their rows, and from there on they are side by side. -/
theorem BareAndListed.read (rule : ShardingRule)
    (h : BareAndListed d table values cs r rows sql sql') (hcs : cs ≠ [])
    (hcatalog : catalog.containsTable (unquoted table.literals) = true) :
    ∃ (P : Pairing) (values' : Token) (rs tail us : List Token) (s s' : InsertStatement)
      (c x y c' x' y' : Cursor), P.Unedited ∧ P.cursors y y' ∧
      ReadTo d rule catalog sql values rs tail s c x y ∧
      ReadTo d rule catalog sql' values' [] us s' c' x' y' ∧
      Joined (.symbol .comma) SpellsRow rows rs ∧
      SameInsertion (withColumns (rule.generatedKey? (unquoted table.literals))
        (unquoted table.literals) (catalog.columns (unquoted table.literals)) (targetDraft table))
        s ∧
      Listed rule table (identifierNames cs) r s' := by
  obtain @⟨ins, into, ins', into', table', values', rs, tail, list, us, hts, hbare, htail, hend,
    hts', hins', hinto', htable', hvalues', hlist, htext⟩ := h
  obtain ⟨hins, hinto, hvalues, hrows⟩ := hbare
  obtain ⟨l, ns, rfl, hl, hns, hr⟩ := hlist.filled_of hcs
  have hwords : (TokenStream.ofText d sql.toList).tokens =
      [ins, into, table] ++ values :: (rs ++ tail) := hts
  have hwords' : (TokenStream.ofText d sql'.toList).tokens =
      (ins' :: into' :: table' :: l :: (ns ++ [r])) ++ values' :: us := by
    rw [hts']
    simp
  have hchars : values.type ≠ .literal .chars := by
    obtain ⟨k, -, hk⟩ := List.mem_map.1 hvalues
    simp [← hk]
  have hrs : rs ++ tail ≠ [] := by
    obtain ⟨vs, -, row, rest, rfl, hrow⟩ := hrows.front
    obtain ⟨_, _, rfl, -⟩ := hrow.closes
    simp
  have hus : us ≠ [] := by
    rintro rfl
    have hmoved := (TokenStream.moved_behind hwords hwords' hvalues' hchars htext).1
    exact hrs (List.forall₂_nil_right_iff.1 hmoved)
  -- Both heads are read up to VALUES, and behind it the two texts are one.
  have hbare : ∀ c, c.dialect = d → c.Passes (ins :: into :: table :: values :: rs) tail →
      Achieves ⟨c, {}⟩ (insertionHead rule catalog) fun _ v => v.cursor.Passes (values :: rs) tail ∧
        ∃ start, v.draft =
          catalogColumns rule catalog (unquoted table.literals) start (targetDraft table) := by
    rintro c rfl hp
    exact achieves_bareHead (w := ⟨c, {}⟩) hinto hvalues hcatalog hp rfl
  have hlisted : ∀ c, c.dialect = d →
      c.Passes (ins' :: into' :: table' :: l :: (ns ++ [r, values'])) us →
      Achieves ⟨c, {}⟩ (insertionHead rule catalog) fun _ v => v.cursor.Passes [values'] us ∧
        Listed rule table (identifierNames cs) r v.draft := by
    rintro c rfl hp
    apply (achieves_writtenHead (w := ⟨c, {}⟩) (hinto'.type ▸ hinto) hl hns hr
      (hvalues'.type ▸ hvalues) hp rfl).mono
    rintro _ v ⟨hv, ⟨hsame, hitems⟩, hstop⟩
    rw [← htable'.literals] at hsame
    refine ⟨hv, ?_, hitems, hstop⟩
    exact ((sameInsertion_targetDraft htable').withColumns _ _).trans hsame
  obtain ⟨c, x, y, s, hread, start, rfl⟩ := readTo_of_head (Q := fun s => ∃ start, s =
    catalogColumns rule catalog (unquoted table.literals) start (targetDraft table)) hts hins hend
    hvalues hbare
  obtain ⟨c', x', y', s', hread', hs'⟩ := readTo_of_head
    (Q := Listed rule table (identifierNames cs) r) (by simpa using hwords')
    (hins'.type ▸ hins) (fun hnil => (hus hnil).elim) (hvalues'.type ▸ hvalues) hlisted
  refine ⟨Pairing.behind sql.toList sql'.toList values.stop values'.stop htext, values', rs, tail,
    us, _, s', c, x, y, c', x', y', ⟨⟨id⟩, fun _ _ => trivial⟩, ?_, hread, hread', hrows,
    sameInsertion_catalogColumns start _, hs'⟩
  exact cursorsBehind hwords hwords' hvalues' hchars htext hrs hread.reaches hread'.reaches
    hread.passes.faces hread'.passes.faces hread.behind hread'.behind

/-! ## Without columns -/

theorem settles_noFilledRow {more : List Token} (hvalues : values.type ∈
      keywordTypes (.VALUES :: w.cursor.dialect.grammar.valuesSynonyms))
    (hrows : Joined (.symbol .comma) SpellsRow rows ts) (hnone : ∀ vs ∈ rows, vs = [])
    (hmore : EndsRows more) (htable : w.draft.findings.tables = ⟨[⟨name, none⟩]⟩)
    (hw : w.cursor.Passes (values :: ts) more) :
    Settles w (valuesClause rule) (fun _ _ => False) fun _ => True := by
  have hinvariant : RowInvariant rule name rows (fun before _ => before = []) (fun _ => True)
      more := by
    refine ⟨fun {vs} _ _ _ _ hmem hs _ _ => ?_, fun _ h => h, fun _ _ => trivial⟩
    obtain @⟨_, _, _, -, hvs, -⟩ := hs
    exact (hvs.ne_nil (hnone vs hmem)).elim
  apply (settles_rows hvalues hrows hmore htable hinvariant hw rfl).mono
  exact fun _ _ h => hrows.ne_nil h.2

theorem settles_emptyRows {tail : List Token} (hs : SpellsBareInsert w.cursor.dialect table rows ts)
    (hnone : ∀ vs ∈ rows, vs = []) (htail : EndsInsert tail)
    (hcatalog : catalog.containsTable (unquoted table.literals) = true)
    (hw : w.cursor.Passes ts tail) (hd : w.draft = {}) :
    Settles w (insertion rule catalog) (fun _ _ => False) fun _ => True := by
  obtain ⟨hins, hinto, hvalues, hrows⟩ := hs
  rw [insertion_split]
  apply Achieves.bind (achieves_bareHead hinto hvalues hcatalog hw hd).withRun
  rintro _ v ⟨⟨hv, start, hvd⟩, hrun⟩
  have hdialect : v.cursor.dialect = w.cursor.dialect := (insertionHead_reaches hrun).dialect
  have htables := (listedBy_catalogColumns rule catalog table start).tables
  rw [← hvd] at htables
  rw [insertionBody_split]
  apply (settles_noFilledRow (hdialect ▸ hvalues) hrows hnone htail.toEndsRows htables hv).bind
  exact fun _ _ h => h.elim

theorem settles_emptyColumns {ins into l : Token} {more : List Token}
    (hinto : into.type = .keyword .INTO) (hl : l.type = .symbol .leftParen)
    (hr : r.type = .symbol .rightParen) (hmore : EndsRows more)
    (hw : w.cursor.Passes [ins, into, table, l, r] more) (hd : w.draft = {}) :
    Settles w (insertion rule catalog) (fun _ _ => False) fun _ => True := by
  unfold insertion
  apply (achieves_advance hw).bind
  intro _ v₁ h₁
  apply (achieves_intoBeforeList hinto hl h₁.passes (h₁.draft.trans hd)).bind
  rintro _ v₂ ⟨hv₂, hd₂⟩
  have hend : EndsRows ([] ++ more) := hmore
  apply (settles_emptyList hl hr hend.operand hend.comma hend.rightParen (fun _ _ => trivial)
    (targetDraft_read hd₂).tables hv₂).bind
  exact fun _ _ h => h.elim

/-- Without columns and with rows without values neither text is accepted. -/
theorem BareAndListed.refused {S : InsertStatement → InsertStatement → Prop}
    (h : BareAndListed d table values [] r rows sql sql') (hnone : ∀ vs ∈ rows, vs = [])
    (hcatalog : catalog.containsTable (unquoted table.literals) = true) :
    Both (Insertions S) (parse d rule catalog sql) (parse d rule catalog sql') := by
  obtain @⟨ins, into, ins', into', table', values', rs, tail, list, us, hts, hbare, htail, hend,
    hts', hins', hinto', -, hvalues', hlist, -⟩ := h
  obtain ⟨hins, hinto, hvalues, -⟩ := id hbare
  obtain ⟨l, rfl, hl, hr⟩ := hlist.empty_of
  have hends : EndsRows (values' :: us) := values_endsRows (hvalues'.type ▸ hvalues)
  have hfirst := parse_insertion rule catalog hts hins hend fun c hc hp =>
    settles_emptyRows (w := ⟨c, {}⟩) (hc ▸ hbare) hnone htail hcatalog hp rfl
  have hlisted : (TokenStream.ofText d sql'.toList).tokens =
      ins' :: [into', table', l, r] ++ values' :: us := hts'
  have hsecond := parse_insertion rule catalog hlisted (hins'.type ▸ hins) (by simp) fun c _ hp =>
    settles_emptyColumns (w := ⟨c, {}⟩) (hinto'.type ▸ hinto) hl hr hends hp rfl
  obtain ⟨_, h, -⟩ | ⟨f, -, hf⟩ := hfirst
  · exact h.elim
  obtain ⟨_, h, -⟩ | ⟨f', -, hf'⟩ := hsecond
  · exact h.elim
  rw [hf, hf']
  exact .error f f'

end SqlFront

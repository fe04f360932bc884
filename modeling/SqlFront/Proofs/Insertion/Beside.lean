import SqlFront.Proofs.Insertion.Listing

/-!
# INSERTs side by side

Two texts of an INSERT into the same table may be the same from VALUES on, although only one of them
lists its columns. From there on they are read side by side. If the columns are the same behind the
first row, they are so to the end, and so are the rows, the conditions and the generated keys.
-/

set_option autoImplicit false

namespace SqlFront

open SqlFront.Parser SqlFront.Clause SqlFront.Reading

variable {d : Dialect} {rule : ShardingRule} {catalog : Catalog} {name : String} {sql sql' : String}
  {P : Pairing} {q : ℕ} {u : Unit} {c c' x y : Cursor} {s s' : InsertStatement}
  {w w' v v' : Workspace InsertStatement} {ins values : Token} {ts us more : List Token}
  {vs : List (List Token)}

/-! ## Statements that correspond -/

inductive Insertions (R : InsertStatement → InsertStatement → Prop) : Statement → Statement → Prop
  | intro {s t : InsertStatement} : R s t → Insertions R (.insert s) (.insert t)

theorem parse_of_insertion (hc : (Cursor.ofText d sql).advance = .ok c)
    (hins : c.current.type = .keyword .INSERT)
    (h : insertion rule catalog ⟨c, {}⟩ = .ok u v) :
    parse d rule catalog sql = .ok (.insert v.draft.sorted) := by
  have hread : Achieves ⟨c, {}⟩ (insertion rule catalog) fun _ x => x = v :=
    (settles_of_ok h).2 rfl
  obtain ⟨s, -, ⟨x, rfl, rfl⟩, hp⟩ | ⟨f, hf, -⟩ :=
    parse_of_settles (settles_insertWord hc hins hread)
  · exact hp
  · exact hf.elim

theorem parse_of_fault {f : Fault} (hc : (Cursor.ofText d sql).advance = .ok c)
    (hins : c.current.type = .keyword .INSERT)
    (h : insertion rule catalog ⟨c, {}⟩ = .error f v) :
    ∃ g, parse d rule catalog sql = .error g := by
  have hread : Settles ⟨c, {}⟩ (insertion rule catalog) (fun _ _ => False) fun _ => True := by
    unfold Settles
    rw [h]
    trivial
  obtain ⟨s, -, ⟨x, hx, -⟩, -⟩ | ⟨g, -, hg⟩ :=
    parse_of_settles (settles_insertWord hc hins hread)
  · exact hx.elim
  · exact ⟨g, hg⟩

theorem parse_paired {R : Workspace InsertStatement → Workspace InsertStatement → Prop}
    {S : InsertStatement → InsertStatement → Prop} (hc : (Cursor.ofText d sql).advance = .ok c)
    (hc' : (Cursor.ofText d sql').advance = .ok c') (hins : c.current.type = .keyword .INSERT)
    (hins' : c'.current.type = .keyword .INSERT)
    (h : Paired Eq R (insertion rule catalog ⟨c, {}⟩) (insertion rule catalog ⟨c', {}⟩))
    (hS : ∀ v v', insertion rule catalog ⟨c, {}⟩ = .ok () v →
      insertion rule catalog ⟨c', {}⟩ = .ok () v' → R v v' → S v.draft.sorted v'.draft.sorted) :
    Both (Insertions S) (parse d rule catalog sql) (parse d rule catalog sql') := by
  cases hr : insertion rule catalog ⟨c, {}⟩ with
  | ok u v =>
    obtain ⟨u', v', hr', -, hv⟩ := h.of_ok hr
    rw [parse_of_insertion hc hins hr, parse_of_insertion hc' hins' hr']
    exact .ok (.intro (hS v v' hr hr' hv))
  | error f v =>
    obtain ⟨f', v', hr'⟩ := h.of_error hr
    obtain ⟨g, hg⟩ := parse_of_fault hc hins hr
    obtain ⟨g', hg'⟩ := parse_of_fault hc' hins' hr'
    rw [hg, hg']
    exact .error g g'

/-! ## Behind VALUES -/

def insertionBehindValues (rule : ShardingRule) : Parser InsertStatement Unit := do
  let table ← insertTable
  discard <| commaSeparated (valuesRow rule table)
  insertionEnd rule

theorem insertionBody_run (hat : w.cursor.isAtAny
      (keywordTypes (.VALUES :: w.cursor.dialect.grammar.valuesSynonyms)) = true)
    (hy : w.cursor.advance = .ok y) :
    insertionBody rule w = insertionBehindValues rule ⟨y, w.draft⟩ := by
  have hskip : skipIf (keywordTypes (.VALUES :: w.cursor.dialect.grammar.valuesSynonyms)) w =
      .ok true ⟨y, w.draft⟩ := skipIf_ok.2 ⟨hat, by rw [if_pos rfl]; exact ⟨y, hy, rfl⟩⟩
  have hgrammar : (grammar : Parser InsertStatement Grammar) w =
      .ok w.cursor.dialect.grammar w := rfl
  rw [insertionBody_split]
  unfold valuesClause insertionBehindValues
  simp only [bind_assoc]
  rw [bind_run hgrammar, bind_run hskip, if_pos rfl, bind_assoc]

structure ReadTo (d : Dialect) (rule : ShardingRule) (catalog : Catalog) (sql : String)
    (values : Token) (ts more : List Token) (s : InsertStatement) (c x y : Cursor) : Prop where
  first : (Cursor.ofText d sql).advance = .ok c
  word : c.current.type = .keyword .INSERT
  reaches : (Cursor.ofText d sql).Reaches x
  passes : x.Passes (values :: ts) more
  behind : x.advance = .ok y
  run : insertion rule catalog ⟨c, {}⟩ = insertionBehindValues rule ⟨y, s⟩

theorem readTo_of_head {Q : InsertStatement → Prop}
    (hts : (TokenStream.ofText d sql.toList).tokens = ins :: ts ++ more)
    (hins : ins.type = .keyword .INSERT)
    (hend : more = [] → ∃ t, (TokenStream.ofText d sql.toList).ending = .ok t)
    (hvalues : values.type ∈ keywordTypes (.VALUES :: d.grammar.valuesSynonyms))
    (hhead : ∀ c, c.dialect = d → c.Passes (ins :: ts) more →
      Achieves ⟨c, {}⟩ (insertionHead rule catalog) fun _ v =>
        v.cursor.Passes (values :: us) more ∧ Q v.draft) :
    ∃ c x y s, ReadTo d rule catalog sql values us more s c x y ∧ Q s := by
  obtain ⟨c, hc, hfaces⟩ := Cursor.ofText_first hts
  have hpass : c.Passes (ins :: ts) more := Cursor.ofText_passes hts hend hc
  obtain ⟨_, v, hrun, hv, hQ⟩ := (hhead c (Cursor.advance_dialect hc) hpass).run
  obtain ⟨y, hy, -⟩ := hv.advance
  have hreach := insertionHead_reaches hrun
  have hdialect : v.cursor.dialect = d := hreach.dialect.trans (Cursor.advance_dialect hc)
  refine ⟨c, v.cursor, y, v.draft, ?_, hQ⟩
  refine ⟨hc, hfaces.current ▸ hins, (Cursor.Reaches.single hc).trans hreach, hv, hy, ?_⟩
  rw [insertion_split, bind_run hrun]
  refine insertionBody_run ?_ hy
  rw [Cursor.isAtAny_iff, hv.current, hdialect]
  exact hvalues

/-! ## Rows side by side -/

theorem agrees_insertionEnd (hP : P.Unedited) :
    Agrees P (ListedAlike q) Eq (insertionEnd rule) (insertionEnd rule) :=
  (agrees_insertAssignments hP).next fun _ =>
    (agrees_duplicateKeyClause hP).next fun _ => agrees_completeKey hP

theorem paired_insertionBehindValues (hP : P.Unedited)
    (htables : w.draft.findings.tables = ⟨[⟨name, none⟩]⟩)
    (htables' : w'.draft.findings.tables = ⟨[⟨name, none⟩]⟩) (hc : P.cursors w.cursor w'.cursor)
    (hrow : Paired Eq (Alike P (ListedAlike q)) (valuesRow rule name w) (valuesRow rule name w')) :
    Paired Eq (Alike P (ListedAlike q)) (insertionBehindValues rule w) (insertionBehindValues rule w') := by
  have htable : insertTable w = .ok name w := insertTable_run (by rw [htables]; rfl)
  have htable' : insertTable w' = .ok name w' := insertTable_run (by rw [htables']; rfl)
  unfold insertionBehindValues
  rw [bind_run htable, bind_run htable']
  have hrows : Paired Eq (Alike P (ListedAlike q))
      (discard (commaSeparated (valuesRow rule name)) w)
      (discard (commaSeparated (valuesRow rule name)) w') := by
    refine Paired.bind (hrow.separated (agrees_valuesRow hP) (P.moves hc)) ?_
    exact fun _ _ _ _ _ _ h => .ok rfl h
  refine hrows.bind fun _ _ v v' _ _ h => ?_
  exact agrees_insertionEnd hP h

/-! ## A list without the generated key -/

structure ListedWithout (key? : Option String) (q : ℕ) (s t : InsertStatement) : Prop where
  found : SameFindings s.findings t.findings
  columns : t.columns = otherColumns key? s.columns
  keys : s.generatedKeys = t.generatedKeys
  rows : s.rows = t.rows
  index : t.generatedKeyIndex? = none
  stop : t.columnListStop = q

theorem Pairing.Unedited.drafts_without (key? : Option String) (hP : P.Unedited) :
    Drafts P (ListedWithout key? q) where
  found h := ⟨h.found, hP.edits _ _⟩
  set h hf := ⟨hf.same, h.columns, h.keys, h.rows, h.index, h.stop⟩

/-- A row that is too short for the longer list makes the lists the same. -/
theorem ListedWithout.shorten {key? : Option String} {n : ℕ} (h : ListedWithout key? q s s')
    (hfew : TooFew key? s.columns n) :
    ListedAlike q (shortenColumns key? n s) (shortenColumns key? n s') := by
  have hcut := shortenColumns_shortened hfew
  obtain ⟨hkeys, hrows, hfound⟩ := shortenColumns_rest key? n s
  have hsame : shortenColumns key? n s' = s' := by
    apply shortenColumns_enough
    rintro ⟨hkey, -⟩
    rw [h.columns, namesKey_otherColumns] at hkey
    cases hkey
  rw [hsame]
  refine ⟨⟨⟨hfound.tables.trans h.found.tables, hfound.conditions.trans h.found.conditions,
    hfound.placeholders.trans h.found.placeholders⟩, ?_, ?_, ?_, ?_⟩, h.stop⟩
  · rw [hcut.columns, h.columns]
  · rw [hkeys, h.keys]
  · rw [hrows, h.rows]
  · rw [hcut.index, h.index]

theorem paired_shortRow (hP : P.Unedited)
    (h : Alike P (ListedWithout (rule.generatedKey? name) q) w w') (hs : SpellsFilled vs ts)
    (hw : w.cursor.Passes (ts ++ us) more)
    (hfew : TooFew (rule.generatedKey? name) w.draft.columns vs.length) :
    Paired Eq (Alike P (ListedAlike q)) (valuesRow rule name w) (valuesRow rule name w') := by
  rw [valuesRow_eq]
  refine Paired.bind (agrees_rowOfValues hP.toVerbatim (hP.drafts_without _) h) ?_
  rintro ⟨place, es⟩ ⟨place', es'⟩ v v' hrun ⟨hplace, hes⟩ hv
  obtain ⟨-, hvalues, hpassed⟩ := (settles_rowOfValues (F := fun _ => True) hs (fun _ _ => trivial)
    hw).property hrun
  simp only at hes hvalues
  have hcolumns : v.draft.columns = w.draft.columns := hpassed.counts.rowsAdded.columns
  rw [← length_of_values hvalues, ← hcolumns] at hfew
  rw [← hes, recordRow_eq, recordRow_eq]
  exact agrees_recordFor hP.toVerbatim hplace es ⟨hv.cursors, hv.drafts.shorten hfew⟩

end SqlFront

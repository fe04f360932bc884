import SqlFront.Proofs.Insertion.Heading

/-!
# Rows, marks and conditions of INSERT

Every row behind VALUES is marked at its opening parenthesis, recorded with its text, and gives one
group of conditions. Marks, rows and groups stand in the order of the rows. Where all rows are of
one length, the first row has left the columns that all of them give their values to.
-/

set_option autoImplicit false

namespace SqlFront

open SqlFront.Parser SqlFront.Clause SqlFront.Reading

variable {d : Dialect} {rule : ShardingRule} {catalog : Catalog} {table : String}
  {w v x y : Workspace InsertStatement} {ts us all rest tail more : List Token} {r : ValueRow}
  {rows : List ValueRow} {m n : ℕ} {es : List Edit} {s : InsertStatement}

/-! ## Rows of one length -/

def rowsValues (text : List Char) : ℕ → List ValueRow → List (List Expression)
  | _, [] => []
  | n, r :: rows => wholeValues text n r.values :: rowsValues text (n + r.count) rows

abbrev SpellsValueRows : List ValueRow → List Token → Prop :=
  Joined (.symbol .comma) SpellsValueRow

structure RowsKept (rule : ShardingRule) (table : String) (m : ℕ) (rows : List ValueRow)
    (w v : Workspace InsertStatement) : Prop where
  columns : v.draft.columns = (shortenColumns (rule.generatedKey? table) m w.draft).columns
  width : v.draft.columns = [] ∨ m = v.draft.columns.length
  marks : rowMarks v.draft.findings.edits =
    rowMarks w.draft.findings.edits ++ rows.map (ValueRow.mark table)
  recorded : v.draft.rows = w.draft.rows ++ rows.map (ValueRow.recorded w.cursor.text)
  groups : v.draft.findings.conditions.groups = w.draft.findings.conditions.groups ++
    (rowsValues w.cursor.text w.draft.findings.placeholders rows).map fun values =>
      ⟨rowConditions rule v.draft.columns (values.map shardingValue?)⟩

theorem RowKept.single (h : RowKept rule table r w v) :
    RowsKept rule table r.values.length [r] w v :=
  ⟨h.columns, h.width, h.marks, h.rows, h.groups⟩

theorem shortenColumns_fit (key? : Option String) (h : s.columns = [] ∨ m = s.columns.length) :
    shortenColumns key? m s = s := by
  have hlt : ¬m < s.columns.length := by
    rcases h with h | h
    · simp [h]
    · omega
  cases key? with
  | none => rfl
  | some key => exact if_neg hlt

theorem RowKept.cons {c : Cursor} (h : RowKept rule table r w v) (hc : v.cursor.advance = .ok c)
    (hrest : RowsKept rule table r.values.length rows ⟨c, v.draft⟩ x) :
    RowsKept rule table r.values.length (r :: rows) w x := by
  have hcolumns : x.draft.columns = v.draft.columns := by
    rw [hrest.columns, shortenColumns_fit _ h.width]
  have htext : c.text = w.cursor.text := (Cursor.advance_text hc).trans h.text
  constructor
  · rw [hcolumns, h.columns]
  · exact hrest.width
  · rw [hrest.marks, h.marks, List.append_assoc]
    rfl
  · rw [hrest.recorded, h.rows, htext, List.append_assoc]
    rfl
  · rw [hrest.groups, h.groups, h.placeholders, htext, ← hcolumns, List.append_assoc]
    rfl

theorem rows_kept {units : List Unit} (hs : SpellsValueRows rows ts)
    (hlength : ∀ r ∈ rows, r.values.length = m) (hmore : frontType more ≠ .symbol .comma)
    (hw : w.cursor.Faces (ts ++ more))
    (h : Separated [.symbol .comma] (valuesRow rule table) w units v) :
    v.cursor.Faces more ∧ RowsKept rule table m rows w v := by
  -- By induction on the rows, each of which has been read as it is spelled.
  induction hs generalizing w units with
  | @single r ts hr =>
    obtain rfl := hlength r (by simp)
    cases h with
    | last hrow =>
      obtain ⟨hv, hkept⟩ := (settles_keptRow hr hw).property hrow
      exact ⟨hv, hkept.single⟩
    | next hrow hat =>
      obtain ⟨hv, -⟩ := (settles_keptRow hr hw).property hrow
      rw [Cursor.isAtAny_singleton, hv.isAt, beq_iff_eq] at hat
      exact (hmore hat).elim
  | @cons r rows s ts us hr hcomma _ ih =>
    rw [List.forall_mem_cons] at hlength
    obtain ⟨rfl, hlength⟩ := hlength
    have hfaces : w.cursor.Faces (ts ++ (s :: us ++ more)) := by simpa using hw
    cases h with
    | last hrow hat =>
      obtain ⟨hv, -⟩ := (settles_keptRow hr hfaces).property hrow
      rw [Cursor.isAtAny_singleton, hv.isAt, beq_eq_false_iff_ne] at hat
      exact (hat hcomma).elim
    | next hrow _ hc hrest =>
      obtain ⟨hv, hkept⟩ := (settles_keptRow hr hfaces).property hrow
      obtain ⟨hx, hall⟩ := ih hlength (hv.advance hc) hrest
      exact ⟨hx, hkept.cons hc hall⟩

def SplitRows (rest : List Token) (rows : List ValueRow) (tail : List Token) : Prop :=
  ∃ ts, rest = ts ++ tail ∧ SpellsValueRows rows ts ∧ frontType tail ≠ .symbol .comma

theorem rows_spelled {units : List Unit} (hall : Inner all) (hw : w.cursor.Faces all)
    (h : Separated [.symbol .comma] (valuesRow rule table) w units v) :
    ∃ rows tail, SplitRows all rows tail := by
  -- By induction on the rows that have been read: each is spelled as one.
  induction h generalizing all with
  | last hrow hat =>
    obtain ⟨r, ts, more, rfl, hr, hv⟩ := row_spelled hall hw hrow
    rw [Cursor.isAtAny_singleton, hv.isAt, beq_eq_false_iff_ne] at hat
    exact ⟨[r], more, ts, rfl, .single hr, hat⟩
  | next hrow hat hc _ ih =>
    obtain ⟨r, ts, more, rfl, hr, hv⟩ := row_spelled hall hw hrow
    rw [Cursor.isAtAny_singleton, hv.isAt, beq_iff_eq] at hat
    cases more with
    | nil => simp at hat
    | cons s rest =>
      have hrest : Inner rest := hall.suffix ⟨ts ++ [s], by simp⟩
      obtain ⟨rows, tail, us, rfl, hus, htail⟩ := ih hrest (hv.advance hc)
      exact ⟨r :: rows, tail, ts ++ s :: us, by simp, .cons hr hat hus, htail⟩

/-! ## The order of the marks -/

theorem SpellsValueRows.lefts (h : SpellsValueRows rows ts) :
    (rows.map ValueRow.left).Sublist ts := by
  induction h with
  | single hr =>
    obtain ⟨_⟩ := hr
    exact List.Sublist.cons_cons _ (List.nil_sublist _)
  | cons hr _ _ ih =>
    obtain ⟨_⟩ := hr
    exact List.Sublist.cons_cons _ ((ih.cons _).trans (List.sublist_append_right _ _))

theorem marks_ordered {stream : TokenStream} (hordered : stream.Ordered)
    (hts : (rows.map ValueRow.left).Sublist stream.tokens) :
    Edit.Ordered (rows.map (ValueRow.mark table)) := by
  have hstarts : (rows.map ValueRow.left).Pairwise fun t u => t.start ≤ u.start := by
    refine List.Pairwise.imp_of_mem (fun ht _ htu => ?_) (hordered.apart.sublist hts)
    exact ((hordered.nonempty _ (hts.subset ht)).trans_le htu).le
  rw [List.pairwise_map] at hstarts
  exact List.pairwise_map.2 hstarts

theorem rowMarks_at (place : ℕ) : Edit.at_ (rowMarks es) place = rowMarks (Edit.at_ es place) := by
  unfold Edit.at_ rowMarks
  rw [List.filter_filter, List.filter_filter]
  exact List.filter_congr fun e _ => Bool.and_comm _ _

theorem rowMarks_sorted (h : Edit.Ordered (rowMarks es)) :
    rowMarks (Edit.sorted es) = rowMarks es := by
  have hsorted : Edit.Ordered (rowMarks (Edit.sorted es)) :=
    (Edit.sorted_ordered es).sublist List.filter_sublist
  refine hsorted.unique h fun place => ?_
  rw [rowMarks_at, rowMarks_at, (Edit.sorted_stable es).stable]

/-! ## The statement -/

/-- The marks of a statement, its rows and its groups of conditions are those of these rows, one
for one and in their order. A group has a condition for each sharding column whose value in the row
is a literal or a placeholder; `n` placeholders stand before the rows. -/
structure Aligned (rule : ShardingRule) (table : String) (text : List Char) (n : ℕ)
    (rows : List ValueRow) (s : InsertStatement) : Prop where
  marks : rowMarks s.findings.edits = rows.map (ValueRow.mark table)
  recorded : s.rows = rows.map (ValueRow.recorded text)
  width : ∀ r ∈ rows, s.columns = [] ∨ r.values.length = s.columns.length
  groups : s.findings.conditions.groups = (rowsValues text n rows).map fun values =>
    ⟨rowConditions rule s.columns (values.map shardingValue?)⟩

theorem RowsKept.aligned (h : RowsKept rule table m rows w v) (hw : BeforeRows table n w.draft)
    (hlength : ∀ r ∈ rows, r.values.length = m) :
    Aligned rule table w.cursor.text n rows v.draft := by
  constructor
  · rw [h.marks, hw.marks, List.nil_append]
  · rw [h.recorded, hw.rows, List.nil_append]
  · intro r hr
    rw [hlength r hr]
    exact h.width
  · rw [h.groups, hw.conditions, hw.placeholders]
    exact List.nil_append _

theorem Aligned.keeps {N : Cursor → Prop} {T : Prop} {text : List Char}
    (h : Aligned rule table text n rows v.draft) (hkeeps : KeepsColumns N T v x)
    (hadds : AddsNoRow v x) : Aligned rule table text n rows x.draft := by
  have hmarks : rowMarks x.draft.findings.edits = rowMarks v.draft.findings.edits :=
    hadds.found.marks
  have hconditions : x.draft.findings.conditions = v.draft.findings.conditions :=
    hadds.found.conditions
  constructor
  · rw [hmarks, h.marks]
  · rw [hadds.rows, h.recorded]
  · rw [hkeeps.columns]
    exact h.width
  · rw [hconditions, hkeeps.columns, h.groups]

theorem Aligned.sorted {text : List Char} (h : Aligned rule table text n rows s)
    (hordered : Edit.Ordered (rows.map (ValueRow.mark table))) :
    Aligned rule table text n rows s.sorted := by
  refine ⟨?_, h.recorded, h.width, h.groups⟩
  have hmarks := h.marks
  rw [← hmarks] at hordered
  exact (rowMarks_sorted hordered).trans hmarks

theorem valuesClause_rows {values : Token} {u : Unit}
    (hvalues : values.type ∈ keywordTypes (.VALUES :: w.cursor.dialect.grammar.valuesSynonyms))
    (hw : w.cursor.Faces (values :: rest)) (htable : w.draft.findings.tables = ⟨[⟨table, none⟩]⟩)
    (h : valuesClause rule w = .ok u v) : ∃ c units, w.cursor.advance = .ok c ∧
      Separated [.symbol .comma] (valuesRow rule table) ⟨c, w.draft⟩ units v := by
  obtain ⟨_, _, hg, h⟩ := bind_ok.1 h
  obtain ⟨rfl, rfl⟩ := grammar_ok.1 hg
  obtain ⟨b, w₁, hb, h⟩ := bind_ok.1 h
  obtain ⟨hat, hw₁⟩ := skipIf_ok.1 hb
  have hthere : w.cursor.isAtAny
      (keywordTypes (.VALUES :: w.cursor.dialect.grammar.valuesSynonyms)) = true := by
    rw [Cursor.isAtAny_iff, hw.current]
    exact hvalues
  obtain rfl : b = true := hat.symm.trans hthere
  obtain ⟨c, hc, rfl⟩ := hw₁
  rw [if_pos rfl] at h
  obtain ⟨name, w₂, hname, h⟩ := bind_ok.1 h
  have hsingle : (Workspace.mk c w.draft).draft.findings.tables.singleName? = some table := by
    rw [htable]
    rfl
  rw [insertTable_run hsingle] at hname
  cases hname
  obtain ⟨units, w₃, hunits, h⟩ := bind_ok.1 h
  obtain ⟨-, rfl⟩ := pure_ok.1 h
  exact ⟨c, units, hc, separated_run hunits⟩

def BodyAligned (rule : ShardingRule) (table : String) (text : List Char) (n : ℕ)
    (rest : List Token) (s : InsertStatement) : Prop :=
  (∃ rows tail, SplitRows rest rows tail) ∧ ∀ rows tail m, SplitRows rest rows tail →
    frontType tail ≠ .keyword .SET → (∀ r ∈ rows, r.values.length = m) →
    Aligned rule table text n rows s

theorem insertionBody_aligned {values : Token} {u : Unit} (hinner : Inner rest)
    (hvalues : values.type ∈ keywordTypes (.VALUES :: w.cursor.dialect.grammar.valuesSynonyms))
    (hw : w.cursor.Faces (values :: rest)) (hbefore : BeforeRows table n w.draft)
    (h : insertionBody rule w = .ok u v) :
    BodyAligned rule table w.cursor.text n rest v.draft := by
  rw [insertionBody_split] at h
  obtain ⟨_, x, hrows, hend⟩ := bind_ok.1 h
  obtain ⟨c, units, hc, hrows⟩ := valuesClause_rows hvalues hw hbefore.tables hrows
  have hfaces : (Workspace.mk c w.draft).cursor.Faces rest := hw.advance hc
  refine ⟨rows_spelled hinner hfaces hrows, ?_⟩
  rintro rows tail m ⟨ts, rfl, hs, hcomma⟩ hset hlength
  obtain ⟨hx, hkept⟩ := rows_kept hs hlength hcomma hfaces hrows
  have haligned := hkept.aligned hbefore hlength
  rw [show (Workspace.mk c w.draft).cursor.text = w.cursor.text from Cursor.advance_text hc]
    at haligned
  obtain ⟨_, y, hassign, hbehind⟩ := bind_ok.1 hend
  obtain rfl := (achieves_noAssignments (hx.type ▸ hset)).property hassign
  exact haligned.keeps (behindRows_keeps (N := fun _ => False) (T := False) hbehind)
    (behindRows_addsNoRow hbehind)

theorem BodyAligned.sorted {stream : TokenStream} {text : List Char}
    (h : BodyAligned rule table text n rest s) (hordered : stream.Ordered)
    (hrest : rest <:+ stream.tokens) : BodyAligned rule table text n rest s.sorted := by
  refine ⟨h.1, ?_⟩
  rintro rows tail m ⟨ts, rfl, hs, hcomma⟩ hset hlength
  have hlefts : (rows.map ValueRow.left).Sublist stream.tokens :=
    hs.lefts.trans ((List.sublist_append_left ts tail).trans hrest.sublist)
  exact (h.2 rows tail m ⟨ts, rfl, hs, hcomma⟩ hset hlength).sorted
    (marks_ordered hordered hlefts)

/-- The rows behind the heading of an accepted INSERT are rows of whole values. If they are of one
length and SET does not follow, the marks of the statement, its recorded rows and its groups of
conditions are those of these rows, one for one and in their order. -/
theorem insert_rows_aligned {sql : String} {v table : Token} {head r : List Token} {s : Statement}
    (hts : (TokenStream.ofText d sql.toList).tokens = head ++ v :: r)
    (hs : SpellsHeading d table n head)
    (hvalues : v.type ∈ keywordTypes (.VALUES :: d.grammar.valuesSynonyms))
    (hparse : parse d rule catalog sql = .ok s) :
    ∃ i, s = .insert i ∧ (∃ rows tail, SplitRows r rows tail) ∧
      ∀ rows tail m, SplitRows r rows tail → frontType tail ≠ .keyword .SET →
        (∀ r ∈ rows, r.values.length = m) →
        Aligned rule (unquoted table.literals) sql.toList n rows i := by
  have hordered := TokenStream.ofText_ordered d sql.toList
  have hinner : ∀ t ∈ head ++ v :: r, t.type ≠ .endOfText := hts ▸ hordered.type
  have hread : ∀ c, (Cursor.ofText d sql).advance = .ok c →
      Settles ⟨c, {}⟩ (insertion rule catalog) (fun _ x =>
        BodyAligned rule (unquoted table.literals) sql.toList n r x.draft) fun _ => True := by
    intro c hc
    have hw : c.Passes head (v :: r) := Cursor.ofText_passes hts (by simp) hc
    have hdialect : c.dialect = d := Cursor.advance_dialect hc
    have htext : c.text = sql.toList := Cursor.advance_text hc
    rw [insertion_split]
    apply (settles_heading (w := ⟨c, {}⟩) rule catalog (hdialect ▸ hs) (hdialect ▸ hvalues)
      (fun t ht => hinner t (by simp [ht])) rfl hw).withRun.bind
    rintro _ x ⟨⟨hx, hbefore⟩, hrun⟩
    have hreach : c.Reaches x.cursor := insertionHead_reaches hrun
    apply settles_of_run _ fun _ => trivial
    intro _ y hbody
    have haligned := insertionBody_aligned (fun t ht => hinner t (by simp [ht]))
      (by rw [hreach.dialect, hdialect]; exact hvalues) hx hbefore hbody
    rwa [hreach.text, htext] at haligned
  obtain ⟨ins, front, rfl, hins⟩ := hs.front
  rcases parse_of_settles (settles_insertText hts hins hread) with
    ⟨_, -, ⟨x, hx, rfl⟩, hp⟩ | ⟨f, -, hp⟩
  · rw [hparse] at hp
    exact ⟨x.draft.sorted, Except.ok.inj hp,
      hx.sorted hordered ⟨ins :: front ++ [v], by simp [hts]⟩⟩
  · rw [hparse] at hp
    cases hp

/-- Two rows give a placeholder each to the sharding column. -/
theorem insert_rows_aligned_two : ∃ i,
    parse .mysql ⟨[("t_order", ⟨["user_id"], some "order_id"⟩)], none⟩ ⟨[]⟩
      "INSERT INTO t_order (user_id, status) VALUES (?, 'a'), (?, 'b')" = .ok (.insert i) ∧
    rowMarks i.findings.edits = [.insertValues 45 "t_order", .insertValues 55 "t_order"] ∧
    i.rows = [⟨.values, "(?, 'a')", 1⟩, ⟨.values, "(?, 'b')", 1⟩] ∧
    i.columns = [⟨"user_id", "t_order"⟩, ⟨"status", "t_order"⟩] ∧
    i.findings.conditions.groups =
      [⟨[⟨⟨"user_id", "t_order"⟩, .equal, [.placeholder 0]⟩]⟩,
        ⟨[⟨⟨"user_id", "t_order"⟩, .equal, [.placeholder 1]⟩]⟩] := by
  have hlist : SpellsList 0 _ := .written (r := ⟨⟨.symbol .leftParen, "(", 20, 21⟩,
      [[⟨.literal .identifier, "user_id", 21, 28⟩], [⟨.literal .identifier, "status", 30, 36⟩]],
      ⟨.symbol .rightParen, ")", 36, 37⟩⟩)
    (.intro rfl (.cons ⟨.token (by decide), rfl⟩ (s := ⟨.symbol .comma, ",", 28, 29⟩) rfl
      (.single ⟨.token (by decide), rfl⟩)) rfl)
  have hs : SpellsHeading .mysql ⟨.literal .identifier, "t_order", 12, 19⟩ (0 + 0) _ := .intro
    (i := ⟨.keyword .INSERT, "INSERT", 0, 6⟩) (b := []) (o := ⟨.keyword .INTO, "INTO", 7, 11⟩)
    (p := []) rfl (by simp) rfl .nil hlist
  have hrows : SpellsValueRows
      [⟨⟨.symbol .leftParen, "(", 45, 46⟩,
        [[⟨.symbol .question, "?", 46, 47⟩], [⟨.literal .chars, "a", 49, 52⟩]],
        ⟨.symbol .rightParen, ")", 52, 53⟩⟩,
      ⟨⟨.symbol .leftParen, "(", 55, 56⟩,
        [[⟨.symbol .question, "?", 56, 57⟩], [⟨.literal .chars, "b", 59, 62⟩]],
        ⟨.symbol .rightParen, ")", 62, 63⟩⟩] _ :=
    .cons (.intro rfl (.cons ⟨.token (by decide), rfl⟩ (s := ⟨.symbol .comma, ",", 47, 48⟩) rfl
        (.single ⟨.token (by decide), rfl⟩)) rfl) (s := ⟨.symbol .comma, ",", 53, 54⟩) rfl
      (.single (.intro rfl (.cons ⟨.token (by decide), rfl⟩
        (s := ⟨.symbol .comma, ",", 57, 58⟩) rfl (.single ⟨.token (by decide), rfl⟩)) rfl))
  obtain ⟨s, hparse, hview⟩ := parse_of_view .mysql
    ⟨[("t_order", ⟨["user_id"], some "order_id"⟩)], none⟩ ⟨[]⟩
    "INSERT INTO t_order (user_id, status) VALUES (?, 'a'), (?, 'b')"
    (fun s => (insertion? s).map InsertStatement.columns)
    (some [⟨"user_id", "t_order"⟩, ⟨"status", "t_order"⟩]) (by decide +kernel)
  obtain ⟨i, hi, hcolumns⟩ := Option.map_eq_some_iff.1 hview
  obtain ⟨i', rfl, -, hall⟩ := insert_rows_aligned
    (v := ⟨.keyword .VALUES, "VALUES", 38, 44⟩)
    (r := [⟨.symbol .leftParen, "(", 45, 46⟩, ⟨.symbol .question, "?", 46, 47⟩,
      ⟨.symbol .comma, ",", 47, 48⟩, ⟨.literal .chars, "a", 49, 52⟩,
      ⟨.symbol .rightParen, ")", 52, 53⟩, ⟨.symbol .comma, ",", 53, 54⟩,
      ⟨.symbol .leftParen, "(", 55, 56⟩, ⟨.symbol .question, "?", 56, 57⟩,
      ⟨.symbol .comma, ",", 57, 58⟩, ⟨.literal .chars, "b", 59, 62⟩,
      ⟨.symbol .rightParen, ")", 62, 63⟩]) (by decide +kernel) hs (by decide) hparse
  obtain rfl : i' = i := Option.some.inj hi
  have h := hall _ [] 2 ⟨_, (List.append_nil _).symm, hrows, by decide⟩ (by decide) (by simp)
  have hgroups := h.groups
  rw [hcolumns] at hgroups
  exact ⟨i', hparse, h.marks.trans (by decide +kernel), h.recorded.trans (by decide +kernel),
    hcolumns, hgroups.trans (by decide +kernel)⟩

/-- A placeholder behind the dot of a name is not counted. Rows behind words that the dialect does
not know behind the table are not read. -/
theorem rows_unaligned :
    (∃ i, parse .mysql ⟨[("t_order", ⟨["user_id"], some "order_id"⟩)], none⟩ ⟨[]⟩
      "INSERT INTO t_order (status) VALUES (a.?)" = .ok (.insert i) ∧
      i.rows = [⟨.values, "(a.?)", 0⟩] ∧
      placeholderCount (TokenStream.ofText .mysql
        "INSERT INTO t_order (status) VALUES (a.?)".toList).tokens = 1) ∧
    ∃ i, parse .sqlserver ⟨[("t_order", ⟨["user_id"], some "order_id"⟩)], none⟩ ⟨[]⟩
      "INSERT INTO t_order (user_id) OUTPUT inserted.user_id VALUES (1)" = .ok (.insert i) ∧
      i.columns = [⟨"user_id", "t_order"⟩] ∧ i.rows = [] ∧ rowMarks i.findings.edits = [] ∧
      i.findings.conditions.groups = [] := by
  constructor
  · obtain ⟨s, hparse, hview⟩ := parse_of_view .mysql
      ⟨[("t_order", ⟨["user_id"], some "order_id"⟩)], none⟩ ⟨[]⟩
      "INSERT INTO t_order (status) VALUES (a.?)"
      (fun s => (insertion? s).map InsertStatement.rows)
      (some [⟨.values, "(a.?)", 0⟩]) (by decide +kernel)
    obtain ⟨i, hi, hrows⟩ := Option.map_eq_some_iff.1 hview
    obtain rfl := eq_insert_of_insertion? hi
    exact ⟨i, hparse, hrows, by decide +kernel⟩
  · obtain ⟨s, hparse, hview⟩ := parse_of_view .sqlserver
      ⟨[("t_order", ⟨["user_id"], some "order_id"⟩)], none⟩ ⟨[]⟩
      "INSERT INTO t_order (user_id) OUTPUT inserted.user_id VALUES (1)"
      (fun s => (insertion? s).map fun i =>
        (i.columns, i.rows, rowMarks i.findings.edits, i.findings.conditions.groups.length))
      (some ([⟨"user_id", "t_order"⟩], [], [], 0)) (by decide +kernel)
    obtain ⟨i, hi, hparts⟩ := Option.map_eq_some_iff.1 hview
    obtain rfl := eq_insert_of_insertion? hi
    simp only [Prod.mk.injEq, List.length_eq_zero_iff] at hparts
    exact ⟨i, hparse, hparts⟩

end SqlFront

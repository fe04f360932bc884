import SqlFront.Proofs.Insertion.Beside
import SqlFront.Proofs.Insertion.ListEnd
import SqlFront.Proofs.Insertion.TwoTexts
import SqlFront.Settings.Basic

/-!
# The list of the catalog, written out

An INSERT that lists the columns of the catalog is the same as the one that leaves its list to the
catalog. If its rows leave out the generated key, so is the one that lists the other columns, and
in both the key becomes the last column. The names of the catalog are taken as they are; a name with
quotes is not the name of the column that is listed in this way.
-/

set_option autoImplicit false

namespace SqlFront

open SqlFront.Parser SqlFront.Clause SqlFront.Reading

variable {d : Dialect} {rule : ShardingRule} {catalog : Catalog} {key name sql sql' : String}
  {u : Unit} {c : Cursor} {s t : InsertStatement} {w v : Workspace InsertStatement}
  {table values r : Token} {cs : List Token} {rows : List (List (List Token))}

/-! ## The generated key as the only item

Where the columns are written, no edit adds items to their list up to the end of the statement.
There the generated key is added, if the rows leave it out. -/

def KeepsNoItems (w v : Workspace InsertStatement) : Prop :=
  itemLists w.draft.findings.edits = [] → itemLists v.draft.findings.edits = []

instance : Stepwise KeepsNoItems where
  refl _ := id
  trans h₁ h₂ := h₂ ∘ h₁
  advance _ _ := id

theorem Follows.keepsNoItems {α : Type} {p : Parser Findings α} (hp : Follows AddsNoColumns p) :
    Follows KeepsNoItems (Parser.onFindings p : Parser InsertStatement α) := by
  intro w a v h hw
  obtain ⟨c, f, hf, rfl⟩ := onFindings_ok.1 h
  unfold itemLists at hw ⊢
  rw [List.filterMap_eq_nil_iff] at hw ⊢
  intro e he
  cases e with
  | items start names leading => exact hw _ (hp hf _ he rfl)
  | _ => rfl

theorem follows_keepsNoItems {g : InsertStatement → InsertStatement}
    (hg : ∀ s, itemLists s.findings.edits = [] → itemLists (g s).findings.edits = []) :
    Follows KeepsNoItems (modifyDraft g) := by
  intro w _ v h
  obtain rfl := modifyDraft_ok.1 h
  exact hg w.draft

theorem shortenColumns_noItems (key? : Option String) (n : ℕ)
    (hs : itemLists s.findings.edits = []) :
    itemLists (shortenColumns key? n s).findings.edits = [] := by
  by_cases hfew : TooFew key? s.columns n
  · cases key? with
    | none => exact hs
    | some key => rw [(shortenColumns_shortened hfew).items key rfl, hs, dropName, List.map_nil]
  · rw [shortenColumns_enough hfew, hs]

theorem dropColumns_noItems (hs : itemLists s.findings.edits = []) :
    itemLists (dropColumns s).findings.edits = [] := by
  unfold itemLists at hs ⊢
  rw [List.filterMap_eq_nil_iff] at hs ⊢
  exact fun e he => hs e (List.mem_filter.1 he).1

instance : RowCourse KeepsNoItems where
  parentheses := .keepsNoItems follows_skipParentheses
  expression := .keepsNoItems follows_expression
  sign := .keepsNoItems follows_assignmentSign
  row _ _ _ hw := (itemLists_add _ rfl).trans hw
  record hedits _ := follows_keepsNoItems fun s hs => by rwa [hedits]
  shorten key? n := follows_keepsNoItems fun _ => shortenColumns_noItems key? n
  drop := follows_keepsNoItems fun _ => dropColumns_noItems

theorem insertionBehindValues_completes (htables : w.draft.findings.tables = ⟨[⟨name, none⟩]⟩)
    (hitems : itemLists w.draft.findings.edits = []) (h : insertionBehindValues rule w = .ok u v) :
    ∃ x : InsertStatement, itemLists x.findings.edits = [] ∧ v.draft = completed rule name x := by
  unfold insertionBehindValues at h
  rw [bind_run (insertTable_run (by rw [htables]; rfl))] at h
  obtain ⟨_, w₁, hrows, h⟩ := bind_ok.1 h
  obtain ⟨_, w₂, hset, h⟩ := bind_ok.1 h
  obtain ⟨_, w₃, hon, hkey⟩ := bind_ok.1 h
  have hkept : KeepsNoItems w w₃ := by
    have h₁ : KeepsNoItems w w₁ := Follows.discard (.commaSeparated (follows_valuesRow name)) hrows
    have h₂ : KeepsNoItems w₁ w₂ := follows_insertAssignments hset
    have h₃ : KeepsNoItems w₂ w₃ := follows_duplicateKeyClause hon
    exact fun hw => h₃ (h₂ (h₁ hw))
  have hprogress : InsertProgress rule (fun _ => False) False w w₃ := by
    have h₁ : InsertProgress rule (fun _ => False) False w w₁ :=
      Follows.discard (.commaSeparated (valuesRow_progress name)) hrows
    exact (h₁.trans (insertAssignments_progress hset)).trans (.of_kept (follows_duplicateKeyClause hon))
  have htables₃ : w₃.draft.findings.tables = ⟨[⟨name, none⟩]⟩ :=
    hprogress.tables_eq.trans htables
  exact ⟨w₃.draft, hkept hitems, (achieves_completeKey htables₃).property hkey⟩

/-! ## The order of the columns -/

/-- Behind the columns that are listed up to the place `p`, the edits there add the rest. -/
structure ColumnsInOrder (listed : List String) (p : ℕ) (order : List String)
    (i : InsertStatement) : Prop where
  place : ∀ e ∈ i.findings.edits, e.addsColumns = true → e.start = p
  order : listed ++ (itemLists i.findings.edits).flatten = order

theorem columnsInOrder_sorted {p : ℕ} {listed added : List String} (hs : s.AddsAtEnd)
    (hp : s.columnListStop = p) (hitems : itemLists s.findings.edits = [added]) :
    ColumnsInOrder listed p (listed ++ added) s.sorted := by
  constructor
  · exact fun e he hadds => hp ▸ hs e (List.mem_mergeSort.1 he) hadds
  · have hsorted : itemLists s.sorted.findings.edits = [added] :=
      itemLists_perm (List.mergeSort_perm _ _).symm hitems
    rw [hsorted, List.flatten_singleton]

theorem BareAndListed.bare_order (h : BareAndListed d table values cs r rows sql sql')
    (hcatalog : catalog.containsTable (unquoted table.literals) = true)
    (hkey : rule.generatedKey? (unquoted table.literals) = some key)
    (hfew : ∀ vs ∈ rows, TooFew (some key) (catalogList (unquoted table.literals)
      (catalog.columns (unquoted table.literals))) vs.length)
    (hc : (Cursor.ofText d sql).advance = .ok c)
    (hrun : insertion rule catalog ⟨c, {}⟩ = .ok u v) :
    ColumnsInOrder [] (values.start - 1)
      (otherNames (some key) (catalog.columns (unquoted table.literals)) ++ [key]) v.draft.sorted ∧
    lacksKey key v.draft = true := by
  obtain @⟨ins, into, _, _, _, _, rs, tail, _, _, hts, hbare, htail, hend, -⟩ := h
  have hdialect : c.dialect = d := Cursor.advance_dialect hc
  have hp : c.Passes (ins :: into :: table :: values :: rs) tail :=
    Cursor.ofText_passes hts hend hc
  obtain ⟨y, x, hlisted, hread, hv⟩ := (settles_bareRows (w := ⟨c, {}⟩) (hdialect ▸ hbare) htail
    hcatalog hp rfl).property hrun
  obtain ⟨-, hinto, hvalues, hrows⟩ := hbare
  have hall : ∀ vs ∈ rows, TooFew (rule.generatedKey? (unquoted table.literals)) y.draft.columns
      vs.length := by
    rw [hkey, hlisted.columns]
    exact hfew
  have hleft := keyLeftOut_shortened hlisted hread hrows.ne_nil hall
  have hlacks := hread.lacksKey hlisted hrows.ne_nil hkey hall
  rw [← hv] at hleft
  have hfront : c.Passes [ins, into, table] (values :: rs ++ tail) := Cursor.Passes.part hp
  obtain ⟨hadds, hstop⟩ := (settles_insertionEnd rule catalog (w := ⟨c, {}⟩) hinto .absent .absent
    hvalues hdialect rfl hfront).property hrun
  refine ⟨columnsInOrder_sorted hadds ?_ (hleft.items key hkey), ?_⟩
  · have hvalue : listFront d [] [] values = values := by simp [listFront]
    rw [hvalue] at hstop
    generalize v.draft.columnListStop = p at hstop
    cases hstop with
    | written _ hr => cases hr
    | given => rfl
    | unknown _ hnone => rw [hcatalog] at hnone; cases hnone
  · rw [hv, lacksKey_completed, hlacks]

theorem BareAndListed.listed_order (h : BareAndListed d table values cs r rows sql sql')
    (hkey : rule.generatedKey? (unquoted table.literals) = some key)
    (hc : (Cursor.ofText d sql').advance = .ok c)
    (hrun : insertion rule catalog ⟨c, {}⟩ = .ok u v)
    (hv : v.draft = completed rule (unquoted table.literals) s)
    (hitems : itemLists s.findings.edits = []) (hlacks : lacksKey key v.draft = true)
    (hstop : v.draft.columnListStop = r.start) :
    ColumnsInOrder (identifierNames cs) r.start (identifierNames cs ++ [key]) v.draft.sorted := by
  obtain @⟨_, _, ins, into, table', values', _, _, list, us, -, hbare, -, -, hts, -, hinto, -,
    hvalues, hlist, -⟩ := h
  obtain ⟨-, hinto', hvalues', -⟩ := hbare
  have hp : c.Passes (ins :: into :: table' :: ([] ++ list)) (values' :: us) :=
    Cursor.ofText_passes hts (by simp) hc
  obtain ⟨hadds, -⟩ := (settles_insertionEnd rule catalog (w := ⟨c, {}⟩) (hinto.type ▸ hinto')
    .absent hlist.enclosed (hvalues.type ▸ hvalues') (Cursor.advance_dialect hc) rfl
    hp).property hrun
  refine columnsInOrder_sorted hadds hstop ?_
  rw [hv, lacksKey_completed] at hlacks
  rw [hv, items_completed hkey hlacks, hitems]
  rfl

/-! ## The statements -/

theorem SameInsertion.sorted (h : SameInsertion s t) : SameInsertion s.sorted t.sorted :=
  ⟨⟨h.found.tables, h.found.conditions, h.found.placeholders⟩, h.columns, h.keys, h.rows, h.index⟩

theorem ReadTo.passes_behind {x y : Cursor} {us : List Token} {more : List Token}
    (h : ReadTo d rule catalog sql values us more s c x y) : y.Passes us more := by
  obtain ⟨y', hy, hp⟩ := h.passes.advance
  rw [h.behind] at hy
  exact Except.ok.inj hy ▸ hp

/-- The list of the catalog, written out. -/
theorem BareAndListed.whole (h : BareAndListed d table values cs r rows sql sql') (hcs : cs ≠ [])
    (hcatalog : catalog.containsTable (unquoted table.literals) = true)
    (hnames : identifierNames cs = catalog.columns (unquoted table.literals)) :
    Both (Insertions SameInsertion) (parse d rule catalog sql) (parse d rule catalog sql') := by
  obtain ⟨P, values', rs, tail, us, s, s', c, x, y, c', x', y', hP, hcursors, hread, hread', -, hs,
    hs'⟩ := h.read rule hcs hcatalog
  have hsame := hs'.same
  rw [hnames] at hsame
  have halike : ListedAlike r.start s s' := ⟨hs.symm.trans hsame, hs'.stop⟩
  have hpaired : Paired Eq (Alike P (ListedAlike r.start)) (insertion rule catalog ⟨c, {}⟩)
      (insertion rule catalog ⟨c', {}⟩) := by
    rw [hread.run, hread'.run]
    exact paired_insertionBehindValues hP (tables_of_same hs) (tables_of_same hsame) hcursors
      (agrees_valuesRow hP ⟨hcursors, halike⟩)
  exact parse_paired hread.first hread'.first hread.word hread'.word hpaired
    fun _ _ _ _ hv => hv.drafts.toSameInsertion.sorted

/-- The list without the generated key, for rows that leave it out. -/
theorem BareAndListed.short (h : BareAndListed d table values cs r rows sql sql') (hcs : cs ≠ [])
    (hcatalog : catalog.containsTable (unquoted table.literals) = true)
    (hkey : rule.generatedKey? (unquoted table.literals) = some key)
    (hnames : identifierNames cs =
      otherNames (some key) (catalog.columns (unquoted table.literals)))
    (hlength : (otherNames (some key) (catalog.columns (unquoted table.literals))).length + 1 =
      (catalog.columns (unquoted table.literals)).length)
    (hrows : ∀ vs ∈ rows, vs.length + 1 = (catalog.columns (unquoted table.literals)).length) :
    Both (Insertions fun i i' => SameInsertion i i' ∧
        ColumnsInOrder [] (values.start - 1)
          (otherNames (some key) (catalog.columns (unquoted table.literals)) ++ [key]) i ∧
        ColumnsInOrder (identifierNames cs) r.start
          (otherNames (some key) (catalog.columns (unquoted table.literals)) ++ [key]) i')
      (parse d rule catalog sql) (parse d rule catalog sql') := by
  obtain ⟨P, values', rs, tail, us, s, s', c, x, y, c', x', y', hP, hcursors, hread, hread',
    hjoined, hs, hs'⟩ := h.read rule hcs hcatalog
  have hsame := hs'.same
  rw [hnames, ← hkey] at hsame
  have hwithout := listedWithout_of hs hsame rfl rfl hs'.stop
  have hfew : ∀ vs ∈ rows, TooFew (some key) (catalogList (unquoted table.literals)
      (catalog.columns (unquoted table.literals))) vs.length := by
    intro vs hvs
    have hvalues := hrows vs hvs
    rw [tooFew_catalogList]
    omega
  -- The first row takes the key out of the longer list.
  have hfirst : Paired Eq (Alike P (ListedAlike r.start))
      (valuesRow rule (unquoted table.literals) ⟨y, s⟩)
      (valuesRow rule (unquoted table.literals) ⟨y', s'⟩) := by
    obtain ⟨vs, hvs, row, rest, rfl, hrow⟩ := hjoined.front
    have hcolumns : s.columns = catalogList (unquoted table.literals)
        (catalog.columns (unquoted table.literals)) := by
      rw [← hs.columns]
      exact addColumns_columns _ _ _ _
    cases hrow with
    | filled hrow =>
      refine paired_shortRow hP ⟨hcursors, hwithout⟩ hrow hread.passes_behind ?_
      rw [hkey, hcolumns]
      exact hfew vs hvs
    | empty =>
      have hvalues := hrows [] hvs
      have hother : (identifierNames cs).length = cs.length := List.length_map _
      have hpos := List.length_pos_iff.2 hcs
      rw [hnames] at hother
      simp only [List.length_nil] at hvalues
      omega
  have hpaired : Paired Eq (Alike P (ListedAlike r.start)) (insertion rule catalog ⟨c, {}⟩)
      (insertion rule catalog ⟨c', {}⟩) := by
    rw [hread.run, hread'.run]
    exact paired_insertionBehindValues hP (tables_of_same hs) (tables_of_same hsame) hcursors hfirst
  apply parse_paired hread.first hread'.first hread.word hread'.word hpaired
  intro v v' hrun hrun' hv
  obtain ⟨hbare, hlacks⟩ := h.bare_order hcatalog hkey hfew hread.first hrun
  rw [hv.drafts.lacksKey] at hlacks
  obtain ⟨t, hitems, ht⟩ := insertionBehindValues_completes (tables_of_same hsame) hs'.items
    (hread'.run ▸ hrun')
  have hlisted := h.listed_order hkey hread'.first hrun' ht hitems hlacks hv.drafts.stop
  refine ⟨hv.drafts.toSameInsertion.sorted, hbare, ?_⟩
  rwa [← hnames]

/-- An INSERT that leaves its list to the catalog and one that lists the columns of the catalog are
both accepted, with the same columns, conditions, generated keys and rows, or both refused. If the
rows leave out the generated key, so are the INSERT and the one that lists the other columns, and in
both of them the key comes behind the other columns. -/
theorem catalog_list_agrees (h : BareAndListed d table values cs r rows sql sql')
    (hcatalog : catalog.containsTable (unquoted table.literals) = true)
    (hdistinct : (catalog.columns (unquoted table.literals)).Pairwise fun m n =>
      sameName m n = false) :
    (identifierNames cs = catalog.columns (unquoted table.literals) →
      (∀ vs ∈ rows, vs.length = (catalog.columns (unquoted table.literals)).length) →
      Both (Insertions SameInsertion) (parse d rule catalog sql) (parse d rule catalog sql')) ∧
    ∀ key, rule.generatedKey? (unquoted table.literals) = some key →
      (∃ n ∈ catalog.columns (unquoted table.literals), sameName key n = true) →
      identifierNames cs = otherNames (some key) (catalog.columns (unquoted table.literals)) →
      (∀ vs ∈ rows, vs.length + 1 = (catalog.columns (unquoted table.literals)).length) →
      Both (Insertions fun i i' => SameInsertion i i' ∧
          ColumnsInOrder [] (values.start - 1)
            (otherNames (some key) (catalog.columns (unquoted table.literals)) ++ [key]) i ∧
          ColumnsInOrder (identifierNames cs) r.start
            (otherNames (some key) (catalog.columns (unquoted table.literals)) ++ [key]) i')
        (parse d rule catalog sql) (parse d rule catalog sql') := by
  constructor
  · intro hnames hrows
    by_cases hcs : cs = []
    · subst hcs
      refine h.refused (fun vs hvs => ?_) hcatalog
      rw [← List.length_eq_zero_iff, hrows vs hvs, ← hnames]
      rfl
    · exact h.whole hcs hcatalog hnames
  · intro key hkey hmem hnames hrows
    have hlength := otherNames_length hdistinct hmem
    by_cases hcs : cs = []
    · subst hcs
      refine h.refused (fun vs hvs => ?_) hcatalog
      have hvalues := hrows vs hvs
      rw [← hlength, ← hnames] at hvalues
      exact List.length_eq_zero_iff.1 (Nat.succ.inj hvalues)
    · exact h.short hcs hcatalog hkey hnames hlength hrows

/-- The key is the first column of the catalog, and the row leaves it out. -/
theorem catalog_list_agrees_short : ∃ i i',
    parse .mysql ⟨[("t_order", ⟨["user_id"], some "order_id"⟩)], none⟩
      ⟨[("t_order", ["order_id", "user_id"])]⟩ "INSERT INTO t_order VALUES (1)" =
        .ok (.insert i) ∧
    parse .mysql ⟨[("t_order", ⟨["user_id"], some "order_id"⟩)], none⟩
      ⟨[("t_order", ["order_id", "user_id"])]⟩ "INSERT INTO t_order (user_id) VALUES (1)" =
        .ok (.insert i') ∧
    SameInsertion i i' ∧ ColumnsInOrder [] 19 ["user_id", "order_id"] i ∧
    ColumnsInOrder ["user_id"] 28 ["user_id", "order_id"] i' := by
  obtain ⟨s, hparse, -⟩ := parse_of_view .mysql
    ⟨[("t_order", ⟨["user_id"], some "order_id"⟩)], none⟩ ⟨[("t_order", ["order_id", "user_id"])]⟩
    "INSERT INTO t_order VALUES (1)" (fun _ => ()) () (by decide +kernel)
  obtain ⟨s', hparse', -⟩ := parse_of_view .mysql
    ⟨[("t_order", ⟨["user_id"], some "order_id"⟩)], none⟩ ⟨[("t_order", ["order_id", "user_id"])]⟩
    "INSERT INTO t_order (user_id) VALUES (1)" (fun _ => ()) () (by decide +kernel)
  have hrow : SpellsRow [[⟨.literal .int, "1", 28, 29⟩]] _ :=
    .filled (.intro (l := ⟨.symbol .leftParen, "(", 27, 28⟩)
      (r := ⟨.symbol .rightParen, ")", 29, 30⟩) rfl (.single ⟨.token (by decide), rfl⟩) rfl)
  have hs : SpellsBareInsert .mysql ⟨.literal .identifier, "t_order", 12, 19⟩ _ _ := .intro
    (i := ⟨.keyword .INSERT, "INSERT", 0, 6⟩) (n := ⟨.keyword .INTO, "INTO", 7, 11⟩)
    (v := ⟨.keyword .VALUES, "VALUES", 20, 26⟩) rfl rfl (by decide) (.single hrow)
  have hlist : SpellsColumns ⟨.symbol .rightParen, ")", 28, 29⟩
      [⟨.literal .identifier, "user_id", 21, 28⟩] _ :=
    .filled (l := ⟨.symbol .leftParen, "(", 20, 21⟩) rfl (.single ⟨rfl, rfl⟩) rfl
  have hend : EndsInsert [] := ⟨⟨rfl, by decide, by decide⟩, by decide, by decide⟩
  have hlisted : (TokenStream.ofText .mysql
      "INSERT INTO t_order (user_id) VALUES (1)".toList).tokens =
      ⟨.keyword .INSERT, "INSERT", 0, 6⟩ :: ⟨.keyword .INTO, "INTO", 7, 11⟩ ::
        ⟨.literal .identifier, "t_order", 12, 19⟩ :: (⟨.symbol .leftParen, "(", 20, 21⟩ ::
          ([⟨.literal .identifier, "user_id", 21, 28⟩] ++ [⟨.symbol .rightParen, ")", 28, 29⟩]) ++
        ⟨.keyword .VALUES, "VALUES", 30, 36⟩ :: [⟨.symbol .leftParen, "(", 37, 38⟩,
          ⟨.literal .int, "1", 38, 39⟩, ⟨.symbol .rightParen, ")", 39, 40⟩]) := by
    decide +kernel
  have htexts : BareAndListed .mysql ⟨.literal .identifier, "t_order", 12, 19⟩
      ⟨.keyword .VALUES, "VALUES", 20, 26⟩ [⟨.literal .identifier, "user_id", 21, 28⟩]
      ⟨.symbol .rightParen, ")", 28, 29⟩ [[[⟨.literal .int, "1", 28, 29⟩]]]
      "INSERT INTO t_order VALUES (1)" "INSERT INTO t_order (user_id) VALUES (1)" :=
    .intro (by decide +kernel) hs hend (fun _ => ⟨Token.atEnd 30, by decide +kernel⟩) hlisted
      ⟨rfl, rfl⟩ ⟨rfl, rfl⟩ ⟨rfl, rfl⟩ ⟨rfl, rfl⟩ hlist (by decide +kernel)
  have hcatalog : Catalog.containsTable ⟨[("t_order", ["order_id", "user_id"])]⟩
      (unquoted "t_order") = true := by decide +kernel
  have hkey : ShardingRule.generatedKey? ⟨[("t_order", ⟨["user_id"], some "order_id"⟩)], none⟩
      (unquoted "t_order") = some "order_id" := by decide +kernel
  have hboth := (catalog_list_agrees htexts hcatalog (by decide +kernel)).2 "order_id" hkey
    (by decide +kernel) (by decide +kernel) (by decide +kernel)
  have horder : otherNames (some "order_id") (Catalog.columns
      ⟨[("t_order", ["order_id", "user_id"])]⟩ (unquoted "t_order")) ++ ["order_id"] =
      ["user_id", "order_id"] := by decide +kernel
  have hnames : identifierNames [⟨.literal .identifier, "user_id", 21, 28⟩] = ["user_id"] := by
    decide +kernel
  rw [hparse, hparse', horder, hnames] at hboth
  cases hboth with
  | ok hpair =>
    cases hpair with
    | intro hsame => exact ⟨_, _, hparse, hparse', hsame⟩

/-- The name of a column has quotes in the catalog: the list of the catalog has the name with them,
and the one that is written has it without. -/
theorem quoted_name_listed : ∃ (settings : Settings) (i i' : InsertStatement),
    settings.validate = .ok () ∧
    (TokenStream.ofText .mysql "\x60a\x60".toList).tokens =
      [⟨.literal .identifier, "\x60a\x60", 0, 3⟩] ∧
    (Catalog.ofSettings settings.sharding).columns "t" = ["\x60a\x60"] ∧
    BareAndListed .mysql ⟨.literal .identifier, "t", 12, 13⟩ ⟨.keyword .VALUES, "VALUES", 14, 20⟩
      [⟨.literal .identifier, "\x60a\x60", 15, 18⟩] ⟨.symbol .rightParen, ")", 18, 19⟩
      [[[⟨.literal .int, "1", 22, 23⟩]]] "INSERT INTO t VALUES (1)"
      "INSERT INTO t (\x60a\x60) VALUES (1)" ∧
    parse .mysql (.ofSettings settings.sharding) (.ofSettings settings.sharding)
      "INSERT INTO t VALUES (1)" = .ok (.insert i) ∧
    parse .mysql (.ofSettings settings.sharding) (.ofSettings settings.sharding)
      "INSERT INTO t (\x60a\x60) VALUES (1)" = .ok (.insert i') ∧
    i.columns = [⟨"\x60a\x60", "t"⟩] ∧ i'.columns = [⟨"a", "t"⟩] := by
  obtain ⟨s, hparse, hview⟩ := parse_of_view .mysql ⟨[("t", ⟨[], none⟩)], none⟩
    ⟨[("t", ["\x60a\x60"])]⟩ "INSERT INTO t VALUES (1)"
    (fun s => (insertion? s).map InsertStatement.columns) (some [⟨"\x60a\x60", "t"⟩])
    (by decide +kernel)
  obtain ⟨s', hparse', hview'⟩ := parse_of_view .mysql ⟨[("t", ⟨[], none⟩)], none⟩
    ⟨[("t", ["\x60a\x60"])]⟩ "INSERT INTO t (\x60a\x60) VALUES (1)"
    (fun s => (insertion? s).map InsertStatement.columns) (some [⟨"a", "t"⟩]) (by decide +kernel)
  obtain ⟨i, hi, hcolumns⟩ := Option.map_eq_some_iff.1 hview
  obtain rfl := eq_insert_of_insertion? hi
  obtain ⟨i', hi', hcolumns'⟩ := Option.map_eq_some_iff.1 hview'
  obtain rfl := eq_insert_of_insertion? hi'
  refine ⟨{ sharding := { tables := [{ logicTable := "t", columns := ["\x60a\x60"] }] } }, i, i',
    by decide +kernel, by decide +kernel, by decide +kernel, ?_, hparse, hparse', hcolumns,
    hcolumns'⟩
  have hrow : SpellsRow [[⟨.literal .int, "1", 22, 23⟩]] _ :=
    .filled (.intro (l := ⟨.symbol .leftParen, "(", 21, 22⟩)
      (r := ⟨.symbol .rightParen, ")", 23, 24⟩) rfl (.single ⟨.token (by decide), rfl⟩) rfl)
  have hs : SpellsBareInsert .mysql ⟨.literal .identifier, "t", 12, 13⟩ _ _ := .intro
    (i := ⟨.keyword .INSERT, "INSERT", 0, 6⟩) (n := ⟨.keyword .INTO, "INTO", 7, 11⟩)
    (v := ⟨.keyword .VALUES, "VALUES", 14, 20⟩) rfl rfl (by decide) (.single hrow)
  have hlist : SpellsColumns ⟨.symbol .rightParen, ")", 18, 19⟩
      [⟨.literal .identifier, "\x60a\x60", 15, 18⟩] _ :=
    .filled (l := ⟨.symbol .leftParen, "(", 14, 15⟩) rfl (.single ⟨rfl, rfl⟩) rfl
  have hend : EndsInsert [] := ⟨⟨rfl, by decide, by decide⟩, by decide, by decide⟩
  have hlisted : (TokenStream.ofText .mysql "INSERT INTO t (\x60a\x60) VALUES (1)".toList).tokens =
      ⟨.keyword .INSERT, "INSERT", 0, 6⟩ :: ⟨.keyword .INTO, "INTO", 7, 11⟩ ::
        ⟨.literal .identifier, "t", 12, 13⟩ :: (⟨.symbol .leftParen, "(", 14, 15⟩ ::
          ([⟨.literal .identifier, "\x60a\x60", 15, 18⟩] ++ [⟨.symbol .rightParen, ")", 18, 19⟩]) ++
        ⟨.keyword .VALUES, "VALUES", 20, 26⟩ :: [⟨.symbol .leftParen, "(", 27, 28⟩,
          ⟨.literal .int, "1", 28, 29⟩, ⟨.symbol .rightParen, ")", 29, 30⟩]) := by
    decide +kernel
  exact .intro (by decide +kernel) hs hend (fun _ => ⟨Token.atEnd 24, by decide +kernel⟩) hlisted
    ⟨rfl, rfl⟩ ⟨rfl, rfl⟩ ⟨rfl, rfl⟩ ⟨rfl, rfl⟩ hlist (by decide +kernel)

end SqlFront

import SqlFront.Proofs.Derived.Adding
import SqlFront.Proofs.SortKey.Kept
import SqlFront.Proofs.SortKey.Source

/-!
# Derived columns for sort keys

Each column that a SELECT gets for a sort key of ORDER BY or GROUP BY is staged under the name of the
key. Whether the staged text denotes the expression that stands in the source is decided by the
expression alone.
-/

set_option autoImplicit false

namespace SqlFront

open SqlFront.Parser SqlFront.Clause Derived

variable {d : Dialect} {rule : ShardingRule} {catalog : Catalog} {sql : String} {q : Query}
  {s : SelectStatement} {e : Expression} {key : OrderItem} {x : AddedColumn} {n : ℕ}

/-! ## Columns for sort keys -/

/-- The columns that a query gets for the sort keys that its select list does not cover, in the order
of the keys and with the aliases of their kinds. They are texts of one edit of the select list. -/
structure KeysStaged (catalog : Catalog) (q : Query) (orders groups : List AddedColumn) : Prop where
  orderBy : ∃ keys,
    KeysDerived (Covers catalog q.findings.tables q.items) q.orderBy keys orders
  groupBy : ∃ keys,
    KeysDerived (Covers catalog q.findings.tables q.items) q.groupBy keys groups
  orderAliases : AddedColumn.NumberedFrom [.orderBy] 0 orders
  groupAliases : AddedColumn.NumberedFrom [.groupBy] 0 groups
  staged : orders ++ groups ≠ [] → ∃ before,
    .items q.selectListStop (before ++ (orders ++ groups).map AddedColumn.text) false ∈
      (q.derive catalog).findings.edits

theorem keysStaged (h : q.isDerived = false) : ∃ orders groups,
    KeysStaged catalog q orders groups := by
  have hcovered : (fun key => covers catalog q.findings.tables q.items key = true) =
      Covers catalog q.findings.tables q.items := by
    funext key
    exact propext covers_iff
  obtain ⟨orders, horderTexts, horders, -, horderNumbered⟩ :=
    sortKeys_derived .orderBy (covers catalog q.findings.tables q.items) 0 q.orderBy
  obtain ⟨groups, hgroupTexts, hgroups, -, hgroupNumbered⟩ :=
    sortKeys_derived .groupBy (covers catalog q.findings.tables q.items) 0 q.groupBy
  rw [hcovered] at horders hgroups
  refine ⟨orders, groups, ⟨_, horders⟩, ⟨_, hgroups⟩, horderNumbered, hgroupNumbered, fun hne => ?_⟩
  have hsplit : (averages 0 q.items).2 ++ orders.map AddedColumn.text ++
      groups.map AddedColumn.text =
        (averages 0 q.items).2 ++ (orders ++ groups).map AddedColumn.text := by
    rw [List.append_assoc, List.map_append]
  rw [derive_eq h, orderAsGrouped_eq, horderTexts, hgroupTexts, hsplit]
  refine ⟨(averages 0 q.items).2, List.mem_append_left _ (List.mem_append_right _ ?_)⟩
  rw [if_neg fun hnil => hne (List.map_eq_nil_iff.1 (List.append_eq_nil_iff.1 hnil).2)]
  exact List.mem_singleton.2 rfl

/-- Each column is that of a sort key which is not covered. -/
theorem KeysDerived.exists_key {Covered : OrderItem → Prop} {keys keys' : List OrderItem}
    {columns : List AddedColumn} (h : KeysDerived Covered keys keys' columns) (hx : x ∈ columns) :
    ∃ key ∈ keys, ¬Covered key ∧ key.qualifiedName? = some x.expression := by
  induction h with
  | nil => cases hx
  | kept _ _ ih =>
    obtain ⟨key, hkey, h⟩ := ih hx
    exact ⟨key, List.mem_cons_of_mem _ hkey, h⟩
  | aliased hcovered hname _ ih =>
    rcases List.mem_cons.1 hx with rfl | hx
    · exact ⟨_, List.mem_cons_self, hcovered, hname⟩
    · obtain ⟨key, hkey, h⟩ := ih hx
      exact ⟨key, List.mem_cons_of_mem _ hkey, h⟩

theorem KeysStaged.exists_key {orders groups : List AddedColumn}
    (h : KeysStaged catalog q orders groups) (hx : x ∈ orders ++ groups) :
    ∃ key ∈ q.orderBy ++ q.groupBy, ¬Covers catalog q.findings.tables q.items key ∧
      key.qualifiedName? = some x.expression := by
  obtain ⟨_, horders⟩ := h.orderBy
  obtain ⟨_, hgroups⟩ := h.groupBy
  rcases List.mem_append.1 hx with hx | hx
  · obtain ⟨key, hkey, hname⟩ := horders.exists_key hx
    exact ⟨key, List.mem_append_left _ hkey, hname⟩
  · obtain ⟨key, hkey, hname⟩ := hgroups.exists_key hx
    exact ⟨key, List.mem_append_right _ hkey, hname⟩

theorem KeysStaged.exists_alias {orders groups : List AddedColumn}
    (h : KeysStaged catalog q orders groups) (hx : x ∈ orders ++ groups) :
    ∃ origin ∈ [Origin.orderBy, .groupBy], ∃ n, x.alias_ = aliasOf origin n := by
  rcases List.mem_append.1 hx with hx | hx
  · obtain ⟨origin, horigin, n, -, halias⟩ := h.orderAliases x hx
    exact ⟨origin, by simp at horigin; simp [horigin], n, halias⟩
  · obtain ⟨origin, horigin, n, -, halias⟩ := h.groupAliases x hx
    exact ⟨origin, by simp at horigin; simp [horigin], n, halias⟩

/-! ## Texts for sort keys -/

theorem not_A_of_mem_aliasOf {origin : Origin} (h : origin ∈ [Origin.orderBy, .groupBy]) :
    'A' ∉ (aliasOf origin n).toList := by
  have hstem : ∀ stem : String, 'A' ∉ stem.toList → 'A' ∉ (stem ++ toString n).toList := by
    intro stem hstem hmem
    rw [String.toList_append, List.mem_append] at hmem
    rcases hmem with hmem | hmem
    · exact hstem hmem
    · exact absurd (isDigit_of_mem_toString hmem) (by decide)
  simp only [List.mem_cons, List.not_mem_nil, or_false] at h
  rcases h with rfl | rfl
  · exact hstem "ORDER_BY_DERIVED_" (by decide)
  · exact hstem "GROUP_BY_DERIVED_" (by decide)

theorem KeyRead.name (h : KeyRead d sql e key) : e.keyName? = key.qualifiedName? := by
  cases h with
  | intro _ _ hitem => exact (orderItem?_name hitem).symm

/-- The text of a column reads as the expression of its key exactly when the expression is kept. -/
theorem KeyRead.rereads_iff {origin : Origin} (h : KeyRead d sql e key)
    (hname : key.qualifiedName? = some x.expression) (horigin : origin ∈ [Origin.orderBy, .groupBy])
    (halias : x.alias_ = aliasOf origin n) : RereadsAs d x.text e x.alias_ ↔ Kept d e := by
  have hkey : e.keyName? = some x.expression := h.name.trans hname
  rw [AddedColumn.text, halias, ← spelt_iff_kept hkey]
  exact SqlFront.rereads_iff (isAlias_aliasOf origin) (not_A_of_mem_aliasOf horigin) hkey

/-- Every column that an accepted SELECT gets for a sort key is staged for an expression that has been
read in the text. What is staged reads as this expression, with `AS` and the alias behind it, exactly
when the expression is kept by its name. -/
theorem sort_key_rereads_iff (h : parse d rule catalog sql = .ok (.select s)) :
    ∃ q orders groups, q.isDerived = false ∧ s.query =
        { q.derive catalog with findings :=
          { (q.derive catalog).findings with
            edits := Edit.sorted (q.derive catalog).findings.edits } } ∧
      KeysStaged catalog q orders groups ∧
      ∀ x ∈ orders ++ groups, ∃ key ∈ q.orderBy ++ q.groupBy,
        ¬Covers catalog q.findings.tables q.items key ∧
        key.qualifiedName? = some x.expression ∧ (∃ e, KeyRead d sql e key) ∧
        ∀ e, KeyRead d sql e key → (RereadsAs d x.text e x.alias_ ↔ Kept d e) := by
  obtain ⟨q, hq, hs⟩ := select_sortsAsRead h
  obtain ⟨orders, groups, hstaged⟩ : ∃ orders groups, KeysStaged catalog q orders groups :=
    keysStaged hq.underived
  refine ⟨q, orders, groups, hq.underived, hs, hstaged, fun x hx => ?_⟩
  obtain ⟨key, hkey, hcovered, hname⟩ := hstaged.exists_key hx
  obtain ⟨origin, horigin, n, halias⟩ := hstaged.exists_alias hx
  refine ⟨key, hkey, hcovered, hname, ?_, fun e he => he.rereads_iff hname horigin halias⟩
  rcases List.mem_append.1 hkey with hkey | hkey
  · exact hq.orderBy key hkey
  · exact hq.groupBy key hkey

def Statement.sortKeys : Statement → List (Option String × Option String)
  | .select s => (s.query.orderBy ++ s.query.groupBy).map fun key =>
      (key.qualifiedName?, key.alias?)
  | _ => []

theorem exists_staged {name : String} {es : List Edit}
    (hkeys : (parse d rule catalog sql).toOption.map Statement.sortKeys =
      some [(some name, some "ORDER_BY_DERIVED_0")])
    (hedits : readEdits? d rule catalog sql = some es) :
    ∃ s, parse d rule catalog sql = .ok (.select s) ∧
      s.query.findings.edits = Edit.sorted es := by
  obtain ⟨s, hp, hs⟩ := parse_of_view d rule catalog sql Statement.sortKeys _ hkeys
  obtain ⟨_, hp', hes⟩ := parse_of_readEdits hedits
  obtain rfl := Except.ok.inj (hp.symm.trans hp')
  cases s <;> simp only [Statement.sortKeys, List.nil_eq, reduceCtorEq] at hs
  case select s => exact ⟨s, hp, hes⟩

/-- A quoted name that is one word without its quotes. -/
theorem sort_key_rereads_iff_word : ∃ s,
    parse .mysql ⟨[], some "ds"⟩ ⟨[]⟩ "SELECT status FROM t_order ORDER BY \x60order_id\x60" =
      .ok (.select s) ∧
    .items 14 ["order_id AS ORDER_BY_DERIVED_0 "] false ∈ s.query.findings.edits ∧
    Kept .mysql (.identifier "order_id") ∧
    ∃ q orders groups, q.isDerived = false ∧ s.query =
        { q.derive ⟨[]⟩ with findings :=
          { (q.derive ⟨[]⟩).findings with
            edits := Edit.sorted (q.derive ⟨[]⟩).findings.edits } } ∧
      KeysStaged ⟨[]⟩ q orders groups ∧
      ∀ x ∈ orders ++ groups, ∃ key ∈ q.orderBy ++ q.groupBy,
        ¬Covers ⟨[]⟩ q.findings.tables q.items key ∧
        key.qualifiedName? = some x.expression ∧
        (∃ e, KeyRead .mysql "SELECT status FROM t_order ORDER BY \x60order_id\x60" e key) ∧
        ∀ e, KeyRead .mysql "SELECT status FROM t_order ORDER BY \x60order_id\x60" e key →
          (RereadsAs .mysql x.text e x.alias_ ↔ Kept .mysql e) := by
  obtain ⟨s, hp, hedits⟩ := @exists_staged .mysql ⟨[], some "ds"⟩ ⟨[]⟩
    "SELECT status FROM t_order ORDER BY \x60order_id\x60" "order_id"
    [.table 19 "t_order", .items 14 ["order_id AS ORDER_BY_DERIVED_0 "] false]
    (by decide +kernel) (by decide +kernel)
  refine ⟨s, hp, ?_, ?_, sort_key_rereads_iff hp⟩
  · rw [hedits]
    exact List.mem_mergeSort.2 (by simp)
  · exact kept_bare ⟨⟨by decide, by decide, by decide⟩, by decide +kernel⟩

theorem not_whole_words {a b : Token} (ha : a.type = .literal .identifier)
    (hb : b.type = .literal .identifier) : ¬Whole [a, b] := by
  intro h
  generalize hts : [a, b] = ts at h
  cases h with
  | group hl =>
    obtain ⟨rfl, -⟩ := List.cons.inj hts
    simp [ha] at hl
  | call _ hl =>
    obtain ⟨rfl, -⟩ := List.cons.inj (List.cons.inj hts).2
    simp [hb] at hl
  | member =>
    cases (List.cons.inj (List.cons.inj hts).2).2
  | word _ _ h =>
    obtain ⟨-, rfl⟩ := List.cons.inj hts
    cases h with
    | chain h =>
      have hfront : frontType [b] ∉ operators := by simp [hb, operators]
      cases (chained_iff_nil hfront).1 h
    | negative h => simp [isNegativeNumber, hb] at h

/-- A name that needs its quotes is staged without them: what is staged begins with no expression
that ends in front of `AS`. -/
theorem quoted_key_respelt : ∃ s,
    parse .mysql ⟨[], some "ds"⟩ ⟨[]⟩ "SELECT status FROM t_order ORDER BY \x60order id\x60" =
      .ok (.select s) ∧
    .items 14 ["order id AS ORDER_BY_DERIVED_0 "] false ∈ s.query.findings.edits ∧
    ∀ e, ¬RereadsAs .mysql "order id AS ORDER_BY_DERIVED_0 " e "ORDER_BY_DERIVED_0" := by
  obtain ⟨s, hp, hedits⟩ := @exists_staged .mysql ⟨[], some "ds"⟩ ⟨[]⟩
    "SELECT status FROM t_order ORDER BY \x60order id\x60" "order id"
    [.table 19 "t_order", .items 14 ["order id AS ORDER_BY_DERIVED_0 "] false]
    (by decide +kernel) (by decide +kernel)
  refine ⟨s, hp, ?_, fun e h => ?_⟩
  · rw [hedits]
    exact List.mem_mergeSort.2 (by simp)
  · obtain ⟨ts, us, htokens, hwhole, -, hwords⟩ := h.tokens
    have htypes : (ts ++ us).map Token.type =
        [.literal .identifier, .literal .identifier, .keyword .AS, .literal .identifier] := by
      rw [← htokens]
      decide +kernel
    have hlen : us.length = 2 := by rw [← List.length_map, hwords, List.length_cons,
      List.length_singleton]
    obtain ⟨a, b, rfl⟩ : ∃ a b, ts = [a, b] := by
      apply List.length_eq_two.1
      have hall := congrArg List.length htypes
      simp only [List.length_map, List.length_append, hlen, List.length_cons, List.length_nil] at hall
      omega
    simp only [List.map_cons, List.cons_append, List.nil_append, List.cons.injEq] at htypes
    exact not_whole_words htypes.1 htypes.2.1 hwhole

end SqlFront

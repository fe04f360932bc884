import SqlFront.Proofs.Derived.Staging
import SqlFront.Proofs.Derived.Average

/-!
# What derived columns add

Adding the derived columns gives every average its count and its sum, and an alias to every sort key
that the select list does not cover. Each of these columns has an alias of its own and stands in the
one edit of the select list. All else stays as it was.
-/

set_option autoImplicit false

namespace SqlFront

open Derived

variable {catalog : Catalog} {tables : Tables} {key : OrderItem} {origin : Origin}
  {items : List SelectItem} {keys : List OrderItem} {q : Query} {s : SelectStatement} {n : ℕ}

/-! ## Sort keys that a select list covers -/

inductive Covers (catalog : Catalog) (tables : Tables) (items : List SelectItem)
    (key : OrderItem) : Prop
  | ordinal {n : ℕ} (h : key.index? = some n)
  | star (h : .star none ∈ items)
  | ownerStar {star owner : String} (h : .star (some star) ∈ items) (howner : key.owner? = some owner)
      (hsame : sameName star owner = true)
  /-- The table that the star is of has a column with the name of the key. -/
  | tableStar {star name : String} {table : Table} (h : .star (some star) ∈ items)
      (howner : key.owner? = none) (hname : key.name? = some name)
      (htable : tables.find? star = some table)
      (hcolumn : catalog.containsColumn table.name name = true)
  | sameAlias {item : SelectItem} {a b : String} (h : item ∈ items) (hitem : item.alias? = some a)
      (hkey : key.alias? = some b) (hsame : sameName a b = true)
  | sameExpression {item : SelectItem} {name : String} (h : item ∈ items)
      (hstar : item.isStar = false) (hitem : item.alias? = none)
      (hname : key.qualifiedName? = some name) (hsame : sameName item.expression name = true)

theorem starCovers_iff {item : SelectItem} : starCovers catalog tables key item = true ↔
    item = .star none ∨ ∃ star, item = .star (some star) ∧
      ((∃ owner, key.owner? = some owner ∧ sameName star owner = true) ∨
        ∃ name table, key.owner? = none ∧ key.name? = some name ∧
          tables.find? star = some table ∧ catalog.containsColumn table.name name = true) := by
  unfold starCovers
  cases item with
  | common | aggregation => simp
  | star owner? =>
    cases owner? with
    | none => simp
    | some star => cases key.owner? <;> cases key.name? <;> simp [Option.any_eq_true]

theorem isSameItem_iff {item : SelectItem} : isSameItem key item = true ↔ item.isStar = false ∧
    ((∃ a b, item.alias? = some a ∧ key.alias? = some b ∧ sameName a b = true) ∨
      ∃ name, item.alias? = none ∧ key.qualifiedName? = some name ∧
        sameName item.expression name = true) := by
  unfold isSameItem
  cases item.alias? <;> cases key.alias? <;> simp [Option.any_eq_true]

theorem covers_iff : covers catalog tables items key = true ↔ Covers catalog tables items key := by
  simp only [covers, Bool.or_eq_true, List.any_eq_true, Option.isSome_iff_exists, starCovers_iff,
    isSameItem_iff]
  constructor
  · rintro ((⟨n, h⟩ | ⟨item, hmem, rfl | ⟨star, rfl, ⟨owner, ho, hs⟩ | ⟨name, table, ho, hn, ht, hc⟩⟩⟩) |
      ⟨item, hmem, hstar, ⟨a, b, ha, hb, hs⟩ | ⟨name, ha, hn, hs⟩⟩)
    · exact .ordinal h
    · exact .star hmem
    · exact .ownerStar hmem ho hs
    · exact .tableStar hmem ho hn ht hc
    · exact .sameAlias hmem ha hb hs
    · exact .sameExpression hmem hstar ha hn hs
  · rintro (⟨h⟩ | ⟨h⟩ | ⟨h, ho, hs⟩ | ⟨h, ho, hn, ht, hc⟩ | ⟨h, ha, hb, hs⟩ | ⟨h, hstar, ha, hn, hs⟩)
    · exact Or.inl (Or.inl ⟨_, h⟩)
    · exact Or.inl (Or.inr ⟨_, h, Or.inl rfl⟩)
    · exact Or.inl (Or.inr ⟨_, h, Or.inr ⟨_, rfl, Or.inl ⟨_, ho, hs⟩⟩⟩)
    · exact Or.inl (Or.inr ⟨_, h, Or.inr ⟨_, rfl, Or.inr ⟨_, _, ho, hn, ht, hc⟩⟩⟩)
    · next item a b =>
      have hstar : item.isStar = false := by
        cases item with
        | star => simp [SelectItem.alias?] at ha
        | common | aggregation => rfl
      exact Or.inr ⟨_, h, hstar, Or.inl ⟨_, _, ha, hb, hs⟩⟩
    · exact Or.inr ⟨_, h, hstar, Or.inr ⟨_, ha, hn, hs⟩⟩

/-! ## Columns to add -/

structure AddedColumn where
  expression : String
  alias_ : String

namespace AddedColumn

def text (x : AddedColumn) : String := staged x.expression x.alias_

def Distinct (xs : List AddedColumn) : Prop :=
  xs.Pairwise fun x y => ¬sameName x.alias_ y.alias_ = true

def NumberedFrom (origins : List Origin) (n : ℕ) (xs : List AddedColumn) : Prop :=
  ∀ x ∈ xs, ∃ origin ∈ origins, ∃ m, n ≤ m ∧ x.alias_ = aliasOf origin m

theorem NumberedFrom.mono {origins : List Origin} {m n : ℕ} {xs : List AddedColumn} (h : m ≤ n)
    (hxs : NumberedFrom origins n xs) : NumberedFrom origins m xs := by
  intro x hx
  obtain ⟨origin, ho, k, hk, halias⟩ := hxs x hx
  exact ⟨origin, ho, k, h.trans hk, halias⟩

theorem NumberedFrom.append {origins origins' : List Origin} {xs ys : List AddedColumn}
    (hxs : NumberedFrom origins n xs) (hys : NumberedFrom origins' n ys) :
    NumberedFrom (origins ++ origins') n (xs ++ ys) := by
  intro x hx
  rcases List.mem_append.1 hx with hx | hx
  · obtain ⟨origin, ho, h⟩ := hxs x hx
    exact ⟨origin, List.mem_append_left _ ho, h⟩
  · obtain ⟨origin, ho, h⟩ := hys x hx
    exact ⟨origin, List.mem_append_right _ ho, h⟩

theorem NumberedFrom.ne {origins : List Origin} {xs : List AddedColumn} {x y : AddedColumn}
    {m : ℕ} (hxs : NumberedFrom origins n xs) (hx : x ∈ xs) (hy : y.alias_ = aliasOf origin m)
    (h : origin ∈ origins → m < n) : ¬sameName y.alias_ x.alias_ = true := by
  intro hsame
  obtain ⟨origin', ho, k, hk, halias⟩ := hxs x hx
  rw [hy, halias] at hsame
  obtain ⟨rfl, rfl⟩ := sameName_aliasOf hsame
  exact absurd (h ho) (Nat.not_lt.2 hk)

theorem Distinct.append {origins origins' : List Origin} {m : ℕ} {xs ys : List AddedColumn}
    (hxs : Distinct xs) (hys : Distinct ys) (hx : NumberedFrom origins m xs)
    (hy : NumberedFrom origins' n ys) (h : ∀ origin ∈ origins, origin ∉ origins') :
    Distinct (xs ++ ys) := by
  refine List.pairwise_append.2 ⟨hxs, hys, fun x hmem y hmem' => ?_⟩
  obtain ⟨origin, ho, k, -, halias⟩ := hx x hmem
  exact hy.ne hmem' halias fun ho' => absurd ho' (h origin ho)

end AddedColumn

open AddedColumn

inductive AveragesDerived : List SelectItem → List SelectItem → List AddedColumn → Prop
  | nil : AveragesDerived [] [] []
  | average {a : Aggregation} {count sum : String} {items items' : List SelectItem}
      {columns : List AddedColumn} (h : a.function = .avg)
      (rest : AveragesDerived items items' columns) :
      AveragesDerived (.aggregation a :: items)
        (.aggregation { a with derived := a.derived ++
          [⟨.count, a.argument, some count, []⟩, ⟨.sum, a.argument, some sum, []⟩] } :: items')
        (⟨Aggregation.expression ⟨.count, a.argument, some count, []⟩, count⟩ ::
          ⟨Aggregation.expression ⟨.sum, a.argument, some sum, []⟩, sum⟩ :: columns)
  | other {item : SelectItem} {items items' : List SelectItem} {columns : List AddedColumn}
      (h : ∀ a, item = .aggregation a → a.function ≠ .avg)
      (rest : AveragesDerived items items' columns) :
      AveragesDerived (item :: items) (item :: items') columns

inductive KeysDerived (Covered : OrderItem → Prop) :
    List OrderItem → List OrderItem → List AddedColumn → Prop
  | nil : KeysDerived Covered [] [] []
  | kept {key : OrderItem} {keys keys' : List OrderItem} {columns : List AddedColumn}
      (h : Covered key ∨ key.qualifiedName? = none) (rest : KeysDerived Covered keys keys' columns) :
      KeysDerived Covered (key :: keys) (key :: keys') columns
  | aliased {key : OrderItem} {name alias_ : String} {keys keys' : List OrderItem}
      {columns : List AddedColumn} (h : ¬Covered key) (hname : key.qualifiedName? = some name)
      (rest : KeysDerived Covered keys keys' columns) :
      KeysDerived Covered (key :: keys) ({ key with alias? := some alias_ } :: keys')
        (⟨name, alias_⟩ :: columns)

theorem exists_average {item : SelectItem}
    (h : item.call?.any fun call => call.1 = .avg) :
    ∃ a, item = .aggregation a ∧ a.function = .avg := by
  cases item with
  | star | common => simp [SelectItem.call?] at h
  | aggregation a => exact ⟨a, rfl, by simpa [SelectItem.call?] using h⟩

theorem averages_derived (n : ℕ) (items : List SelectItem) : ∃ columns : List AddedColumn,
    (averages n items).2 = columns.map text ∧
      AveragesDerived items (averages n items).1 columns ∧ Distinct columns ∧
      NumberedFrom [.averageCount, .averageSum] n columns := by
  -- By induction on the items. The aliases of an average have its number, and all behind it have
  -- greater numbers.
  induction items generalizing n with
  | nil => exact ⟨[], rfl, .nil, .nil, fun x hx => by cases hx⟩
  | cons item items ih =>
    by_cases havg : item.call?.any fun call => call.1 = .avg
    · obtain ⟨a, rfl, ha⟩ := exists_average havg
      obtain ⟨columns, htexts, hderived, hdistinct, hnumbered⟩ := ih (n + 1)
      rw [averages_average ha]
      refine ⟨_, ?_, .average ha hderived, ?_, ?_⟩
      · rw [htexts]
        rfl
      · refine .cons (fun x hx => ?_) (.cons (fun x hx => ?_) hdistinct)
        · rcases List.mem_cons.1 hx with rfl | hx
          · intro hsame
            exact absurd (sameName_aliasOf hsame).1 (by decide)
          · exact hnumbered.ne hx (show _ = aliasOf .averageCount n from rfl)
              fun _ => Nat.lt_succ_self n
        · exact hnumbered.ne hx (show _ = aliasOf .averageSum n from rfl)
            fun _ => Nat.lt_succ_self n
      · intro x hx
        rcases List.mem_cons.1 hx with rfl | hx
        · exact ⟨.averageCount, by simp, n, le_rfl, rfl⟩
        rcases List.mem_cons.1 hx with rfl | hx
        · exact ⟨.averageSum, by simp, n, le_rfl, rfl⟩
        · exact hnumbered.mono (Nat.le_succ n) x hx
    · obtain ⟨columns, htexts, hderived, hnumbered⟩ := ih n
      rw [averages_other havg]
      refine ⟨columns, htexts, .other (fun a ha => ?_) hderived, hnumbered⟩
      subst ha
      simpa [SelectItem.call?] using havg

theorem sortKeys_derived (origin : Origin) (covered : OrderItem → Bool) (n : ℕ)
    (keys : List OrderItem) : ∃ columns : List AddedColumn,
    (sortKeys origin covered n keys).2 = columns.map text ∧
      KeysDerived (fun key => covered key = true) keys (sortKeys origin covered n keys).1 columns ∧
      Distinct columns ∧ NumberedFrom [origin] n columns := by
  -- By induction on the keys. Each key that is not covered takes the next number.
  induction keys generalizing n with
  | nil => exact ⟨[], rfl, .nil, .nil, fun x hx => by cases hx⟩
  | cons key keys ih =>
    unfold sortKeys
    split
    · next name hcovered hname =>
      obtain ⟨columns, htexts, hderived, hdistinct, hnumbered⟩ := ih (n + 1)
      refine ⟨_, ?_, .aliased (by simp [hcovered]) hname hderived, ?_, ?_⟩
      · exact congrArg (staged name (aliasOf origin n) :: ·) htexts
      · exact .cons (fun x hx => hnumbered.ne hx rfl fun _ => Nat.lt_succ_self n) hdistinct
      · intro x hx
        rcases List.mem_cons.1 hx with rfl | hx
        · exact ⟨origin, List.mem_singleton.2 rfl, n, le_rfl, rfl⟩
        · exact hnumbered.mono (Nat.le_succ n) x hx
    · next hother =>
      obtain ⟨columns, htexts, hderived, hnumbered⟩ := ih n
      refine ⟨columns, htexts, .kept ?_ hderived, hnumbered⟩
      cases hcovered : covered key with
      | true => exact Or.inl rfl
      | false =>
        cases hname : key.qualifiedName? with
        | none => exact Or.inr rfl
        | some name => exact (hother name hcovered hname).elim

theorem covers_averages (n : ℕ) :
    covers catalog tables (averages n items).1 = covers catalog tables items := by
  have hany : ∀ (p : SelectItem → Bool),
      (∀ a calls, p (.aggregation { a with derived := calls }) = p (.aggregation a)) →
      (averages n items).1.any p = items.any p := by
    intro p hp
    induction items generalizing n with
    | nil => rfl
    | cons item items ih =>
      by_cases havg : item.call?.any fun call => call.1 = .avg
      · obtain ⟨a, rfl, ha⟩ := exists_average havg
        rw [averages_average ha, List.any_cons, List.any_cons, ih]
        exact congrArg (· || items.any p) (hp a _)
      · rw [averages_other havg, List.any_cons, List.any_cons, ih]
  funext key
  unfold covers
  rw [hany (starCovers catalog tables key) fun _ _ => rfl,
    hany (isSameItem key) fun _ _ => rfl]

/-! ## The whole query -/

/-- The query with its derived columns, the columns for averages, order and grouping apart. -/
structure DerivedBy (catalog : Catalog) (q q' : Query) (averages orders groups : List AddedColumn) :
    Prop where
  items : AveragesDerived q.items q'.items averages
  orderBy : q.orderBy ≠ [] →
    KeysDerived (Covers catalog q.findings.tables q.items) q.orderBy q'.orderBy orders
  /-- Without an order the query sorts as it groups. -/
  asGrouped : q.orderBy = [] → q'.orderBy = q'.groupBy ∧ orders = []
  groupBy : KeysDerived (Covers catalog q.findings.tables q.items) q.groupBy q'.groupBy groups
  sorted : q'.groupBy ≠ [] → q'.orderBy ≠ []
  distinct : Distinct (averages ++ orders ++ groups)
  /-- One edit adds all columns, if there are any, and one adds the missing ORDER BY. -/
  edits : q'.findings.edits = q.findings.edits ++
    (if averages ++ orders ++ groups = [] then []
      else [.items q.selectListStop ((averages ++ orders ++ groups).map text) false]) ++
    (if q.orderBy = [] ∧ q.groupBy ≠ [] then [.orderBy q.groupByStop] else [])
  isDerived : q'.isDerived = true
  /-- All else stays. -/
  rest : q' = { q with
    items := q'.items
    orderBy := q'.orderBy
    groupBy := q'.groupBy
    isDerived := q'.isDerived
    findings := { q.findings with edits := q'.findings.edits } }

theorem KeysDerived.nil_iff {Covered : OrderItem → Prop} {keys keys' : List OrderItem}
    {columns : List AddedColumn} (h : KeysDerived Covered keys keys' columns) :
    keys' = [] ↔ keys = [] := by
  cases h <;> simp

theorem orderAsGrouped_eq (q : Query) : q.orderAsGrouped =
    { q with
      orderBy := if q.orderBy = [] then q.groupBy else q.orderBy
      findings := { q.findings with edits := q.findings.edits ++
        (if q.orderBy = [] ∧ q.groupBy ≠ [] then [.orderBy q.groupByStop] else []) } } := by
  obtain ⟨f, star, stop, gstop, items, groupBy, orderBy, limit, derived⟩ := q
  cases groupBy <;> cases orderBy <;>
    simp [Query.orderAsGrouped, Query.addEdit, Findings.addEdit]

theorem derive_done (h : q.isDerived = true) : q.derive catalog = q := by
  unfold Query.derive
  rw [if_pos h]

theorem derive_eq (h : q.isDerived = false) : q.derive catalog =
    { q with
      items := (averages 0 q.items).1
      orderBy := (sortKeys .orderBy (covers catalog q.findings.tables q.items) 0 q.orderBy).1
      groupBy := (sortKeys .groupBy (covers catalog q.findings.tables q.items) 0 q.groupBy).1
      isDerived := true
      findings := { q.findings with edits := q.findings.edits ++
        (if (averages 0 q.items).2 ++
            (sortKeys .orderBy (covers catalog q.findings.tables q.items) 0 q.orderBy).2 ++
            (sortKeys .groupBy (covers catalog q.findings.tables q.items) 0 q.groupBy).2 = [] then []
          else [.items q.selectListStop ((averages 0 q.items).2 ++
            (sortKeys .orderBy (covers catalog q.findings.tables q.items) 0 q.orderBy).2 ++
            (sortKeys .groupBy (covers catalog q.findings.tables q.items) 0 q.groupBy).2)
            false]) } : Query }.orderAsGrouped := by
  unfold Query.derive
  rw [if_neg (by simp [h])]
  dsimp only
  rw [covers_averages]
  simp only [List.isEmpty_iff]
  split
  · rw [List.append_nil]
  · rfl

/-- A query that has no derived columns yet gets a count and a sum for every average and an alias for
every sort key with a name that its select list does not cover, in one edit and under different
names. All else stays, and nothing is added a second time. -/
theorem derive_adds (h : s.query.isDerived = false) : ∃ averages orders groups,
    DerivedBy catalog s.query (s.derive catalog).query averages orders groups ∧
      (s.derive catalog).inner = s.inner ∧
      (s.derive catalog).derive catalog = s.derive catalog := by
  obtain ⟨q, inner⟩ := s
  obtain ⟨averages, htexts, haverages, hdistinct, hnumbered⟩ := averages_derived 0 q.items
  have hcovered : (fun key => covers catalog q.findings.tables q.items key = true) =
      Covers catalog q.findings.tables q.items := by
    funext key
    exact propext covers_iff
  obtain ⟨orders, horderTexts, horders, horderDistinct, horderNumbered⟩ :=
    sortKeys_derived .orderBy (covers catalog q.findings.tables q.items) 0 q.orderBy
  obtain ⟨groups, hgroupTexts, hgroups, hgroupDistinct, hgroupNumbered⟩ :=
    sortKeys_derived .groupBy (covers catalog q.findings.tables q.items) 0 q.groupBy
  rw [hcovered] at horders hgroups
  have htext : (averages.map text ++ orders.map text ++ groups.map text) =
      (averages ++ orders ++ groups).map text := by
    rw [List.map_append, List.map_append]
  have hderive := @derive_eq catalog q h
  rw [orderAsGrouped_eq, htexts, horderTexts, hgroupTexts, htext] at hderive
  simp only [horders.nil_iff, ne_eq, hgroups.nil_iff, List.map_eq_nil_iff] at hderive
  have hnone : q.orderBy = [] → orders = [] := by
    intro hnil
    rw [hnil] at horders
    cases horders
    rfl
  -- The aliases differ within a kind by their numbers, and between two kinds by their words.
  refine ⟨averages, orders, groups, ?_, rfl, ?_⟩
  · exact {
      items := by
        rw [SelectStatement.derive, hderive]
        exact haverages
      orderBy := fun hne => by
        rw [SelectStatement.derive, hderive]
        dsimp only
        rw [if_neg hne]
        exact horders
      asGrouped := fun hnil => by
        rw [SelectStatement.derive, hderive]
        exact ⟨if_pos hnil, hnone hnil⟩
      groupBy := by
        rw [SelectStatement.derive, hderive]
        exact hgroups
      sorted := by
        rw [SelectStatement.derive, hderive]
        dsimp only
        split
        · exact id
        · next hne => exact fun _ => horders.nil_iff.not.2 hne
      distinct := by
        have hfront := hdistinct.append horderDistinct hnumbered horderNumbered (by decide)
        exact hfront.append hgroupDistinct (hnumbered.append horderNumbered) hgroupNumbered
          (by decide)
      edits := by
        rw [SelectStatement.derive, hderive]
      isDerived := by
        rw [SelectStatement.derive, hderive]
      rest := by
        rw [SelectStatement.derive, hderive] }
  · have hdone : (q.derive catalog).isDerived = true := by rw [hderive]
    rw [SelectStatement.derive, SelectStatement.derive, derive_done hdone]

/-- An average, an ordered column of the list under another alias, and a grouped column that is not
in the list. -/
theorem derive_adds_three : ∃ s : SelectStatement, s.query.isDerived = false ∧
    (s.derive ⟨[]⟩).query.findings.edits = [.items 40 ["COUNT(price) AS AVG_DERIVED_COUNT_0 ",
      "SUM(price) AS AVG_DERIVED_SUM_0 ", "o.status AS ORDER_BY_DERIVED_0 ",
      "user_id AS GROUP_BY_DERIVED_0 "] false] ∧
    ∃ averages orders groups,
      DerivedBy ⟨[]⟩ s.query (s.derive ⟨[]⟩).query averages orders groups ∧
      (s.derive ⟨[]⟩).inner = s.inner ∧ (s.derive ⟨[]⟩).derive ⟨[]⟩ = s.derive ⟨[]⟩ := by
  refine ⟨⟨{
      items := [.common "o.status" (some "state"), .aggregation ⟨.avg, "(price)", none, []⟩]
      orderBy := [.ofOwner "o" "status" .ascending .ascending none]
      groupBy := [.ofName "user_id" .ascending .ascending none]
      selectListStop := 40 }, []⟩, rfl, by decide +kernel, ?_⟩
  exact derive_adds rfl

end SqlFront

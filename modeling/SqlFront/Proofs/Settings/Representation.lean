import Mathlib
import SqlFront.Settings.Basic

/-!
# Rule and catalog of valid settings

The sharding rule and the catalog keep the last of several tables with one name in lower case.
Settings in which something is wrong with two such tables are refused by the same name, so that the
rule and the catalog of valid settings have every table as it has been set, and no other one.
-/

set_option autoImplicit false

namespace SqlFront

/-! ## Keyed lists of pairs -/

namespace KeyedList

variable {κ α : Type} [DecidableEq κ] {k : κ} {a : α} {pairs : List (κ × α)} {p : κ × α}

theorem get?_ofPairs_concat :
    get? k (ofPairs (pairs ++ [p])) = if p.1 = k then some p.2 else get? k (ofPairs pairs) := by
  have hput : ofPairs (pairs ++ [p]) = put p.1 p.2 (ofPairs pairs) := by
    simp [ofPairs, List.foldl_append]
  rw [hput]
  split
  · next hk =>
    subst hk
    exact get?_put_self _ _ _
  · next hk => exact get?_put_of_ne (Ne.symm hk) _ _

theorem get?_ofPairs_eq_none (h : k ∉ pairs.map Prod.fst) : get? k (ofPairs pairs) = none := by
  induction pairs using List.reverseRecOn with
  | nil => rfl
  | append_singleton pairs p ih =>
    rw [List.map_append, List.mem_append, not_or] at h
    rw [get?_ofPairs_concat, if_neg fun hk => h.2 (by simp [hk]), ih h.1]

theorem get?_ofPairs_of_nodup (h : (pairs.map Prod.fst).Nodup) (hmem : (k, a) ∈ pairs) :
    get? k (ofPairs pairs) = some a := by
  induction pairs using List.reverseRecOn with
  | nil => cases hmem
  | append_singleton pairs p ih =>
    rw [List.map_append, List.nodup_append] at h
    rw [get?_ofPairs_concat]
    rcases List.mem_append.1 hmem with hmem | hmem
    · have hne : p.1 ≠ k := fun hk =>
        h.2.2 k (List.mem_map.2 ⟨(k, a), hmem, rfl⟩) p.1 (by simp) hk.symm
      rw [if_neg hne, ih h.1 hmem]
    · obtain rfl := List.mem_singleton.1 hmem
      rw [if_pos rfl]

end KeyedList

/-! ## Valid settings -/

variable {s : Settings} {t : TableSettings} {ts : List TableSettings} {seen : List String}
  {name : String}

def TableSettings.key (t : TableSettings) : String := lowerCase t.logicTable

namespace Settings

theorem tableFault?_eq_none (h : tableFault? seen t = none) :
    t.key ∉ seen ∧ ∀ column, t.generatedKey? = some column → t.columns ≠ [] →
      ∃ c ∈ t.columns, sameName c column = true := by
  unfold tableFault? at h
  split at h
  · cases h
  split at h
  · cases h
  next hseen =>
  refine ⟨by simpa [TableSettings.key] using hseen, fun column hcolumn hcolumns => ?_⟩
  rw [hcolumn, Option.bind_some] at h
  split at h
  · next hok => simpa [hcolumns] using hok
  · cases h

/-- Where nothing is wrong with the tables no two of them have one key, and the generated key of a
table with columns is one of them. -/
theorem tablesFault?_eq_none (h : tablesFault? seen ts = none) :
    (ts.map TableSettings.key).Nodup ∧ (∀ t ∈ ts, t.key ∉ seen) ∧
      ∀ t ∈ ts, ∀ column, t.generatedKey? = some column → t.columns ≠ [] →
        ∃ c ∈ t.columns, sameName c column = true := by
  induction ts generalizing seen with
  | nil => simp
  | cons t ts ih =>
    unfold tablesFault? at h
    obtain ⟨ht, hts⟩ := Option.or_eq_none_iff.1 h
    obtain ⟨hnew, hcolumn⟩ := tableFault?_eq_none ht
    obtain ⟨hnodup, hapart, hcolumns⟩ := ih hts
    simp only [List.mem_cons, not_or] at hapart
    refine ⟨?_, ?_, ?_⟩
    · rw [List.map_cons, List.nodup_cons]
      refine ⟨fun hmem => ?_, hnodup⟩
      obtain ⟨u, hu, hkey⟩ := List.mem_map.1 hmem
      exact (hapart u hu).1 hkey
    · exact List.forall_mem_cons.2 ⟨hnew, fun u hu => (hapart u hu).2⟩
    · exact List.forall_mem_cons.2 ⟨hcolumn, hcolumns⟩

theorem tablesFault?_of_validate (h : s.validate = .ok ()) :
    tablesFault? [] s.sharding.tables = none := by
  unfold validate at h
  cases hfault : s.fault? with
  | some cause =>
    rw [hfault] at h
    cases h
  | none =>
    unfold fault? at hfault
    split at hfault
    · cases hfault
    split at hfault
    · cases hfault
    exact hfault

end Settings

/-! ## What the rule and the catalog say of a table -/

structure Represented (rule : ShardingRule) (catalog : Catalog) (t : TableSettings) (name : String) :
    Prop where
  ruled : rule.containsTable name = true
  generatedKey : rule.generatedKey? name = t.generatedKey?
  shardingColumn : ∀ column, rule.isShardingColumn ⟨column, name⟩ = true ↔
    ∃ c ∈ t.shardingColumns, foldCase c = foldCase column
  cataloged : catalog.containsTable name = true ↔ t.columns ≠ []
  columns : catalog.columns name = t.columns
  keyColumn : t.columns ≠ [] → ∀ column, t.generatedKey? = some column →
    catalog.containsColumn name column = true

variable {sharding : ShardingSettings}

theorem tableRule?_ofSettings (hkeys : (sharding.tables.map TableSettings.key).Nodup)
    (ht : t ∈ sharding.tables) (hname : lowerCase name = t.key) :
    (ShardingRule.ofSettings sharding).tableRule? name =
      some ⟨t.shardingColumns, t.generatedKey?⟩ := by
  rw [ShardingRule.tableRule?, hname]
  apply KeyedList.get?_ofPairs_of_nodup
  · rw [List.map_map]
    exact hkeys
  · exact List.mem_map.2 ⟨t, ht, rfl⟩

theorem tableRule?_ofSettings_eq_none (h : ∀ t ∈ sharding.tables, lowerCase name ≠ t.key) :
    (ShardingRule.ofSettings sharding).tableRule? name = none := by
  apply KeyedList.get?_ofPairs_eq_none
  simp only [List.map_map, List.mem_map, not_exists, not_and]
  exact fun t ht hkey => h t ht hkey.symm

theorem catalog_ofSettings_of_columns (hkeys : (sharding.tables.map TableSettings.key).Nodup)
    (ht : t ∈ sharding.tables) (hcolumns : t.columns ≠ []) (hname : lowerCase name = t.key) :
    KeyedList.get? (lowerCase name) (Catalog.ofSettings sharding).tables = some t.columns := by
  rw [hname]
  apply KeyedList.get?_ofPairs_of_nodup
  · rw [List.map_map]
    exact hkeys.sublist (List.filter_sublist.map _)
  · exact List.mem_map.2 ⟨t, List.mem_filter.2 ⟨ht, by simpa using hcolumns⟩, rfl⟩

theorem catalog_ofSettings_eq_none
    (h : ∀ t ∈ sharding.tables, lowerCase name = t.key → t.columns = []) :
    KeyedList.get? (lowerCase name) (Catalog.ofSettings sharding).tables = none := by
  apply KeyedList.get?_ofPairs_eq_none
  simp only [List.map_map, List.mem_map, List.mem_filter, not_exists, not_and]
  rintro t ⟨ht, hcolumns⟩ hkey
  simp [h t ht hkey.symm] at hcolumns

/-- What the catalog has under the name of a table: its columns, if there are any. -/
theorem catalog_ofSettings (hkeys : (sharding.tables.map TableSettings.key).Nodup)
    (ht : t ∈ sharding.tables) (hname : lowerCase name = t.key) :
    KeyedList.get? (lowerCase name) (Catalog.ofSettings sharding).tables =
      if t.columns = [] then none else some t.columns := by
  split
  · next hnone =>
    apply catalog_ofSettings_eq_none
    intro u hu hkey
    rw [List.inj_on_of_nodup_map hkeys hu ht (hkey.symm.trans hname), hnone]
  · next hsome => exact catalog_ofSettings_of_columns hkeys ht hsome hname

/-- The rule and the catalog of valid settings have every table under each name with its lower case,
as it has been set, and none under other names. -/
theorem settings_represented (h : s.validate = .ok ()) :
    (∀ t ∈ s.sharding.tables, ∀ name, lowerCase name = lowerCase t.logicTable →
      Represented (.ofSettings s.sharding) (.ofSettings s.sharding) t name) ∧
    ∀ name, (∀ t ∈ s.sharding.tables, lowerCase name ≠ lowerCase t.logicTable) →
      (ShardingRule.ofSettings s.sharding).containsTable name = false ∧
        (Catalog.ofSettings s.sharding).containsTable name = false := by
  obtain ⟨hkeys, -, hcolumn⟩ := Settings.tablesFault?_eq_none (Settings.tablesFault?_of_validate h)
  refine ⟨fun t ht name hname => ?_, fun name hnone => ?_⟩
  · have hrule := tableRule?_ofSettings hkeys ht hname
    have hcatalog := catalog_ofSettings hkeys ht hname
    have hcolumns : (Catalog.ofSettings s.sharding).columns name = t.columns := by
      rw [Catalog.columns, hcatalog]
      split
      · next hnil => exact hnil.symm
      · rfl
    exact {
      ruled := by simp [ShardingRule.containsTable, hrule]
      generatedKey := by simp [ShardingRule.generatedKey?, hrule]
      shardingColumn := fun column => by simp [ShardingRule.isShardingColumn, hrule, sameName_iff]
      cataloged := by simp [Catalog.containsTable, hcatalog]
      columns := hcolumns
      keyColumn := fun hne column hkey => by
        rw [Catalog.containsColumn, hcolumns]
        exact List.any_eq_true.2 (hcolumn t ht column hkey hne) }
  · have hcatalog : KeyedList.get? (lowerCase name) (Catalog.ofSettings s.sharding).tables = none :=
      catalog_ofSettings_eq_none fun t ht hkey => (hnone t ht hkey).elim
    constructor
    · rw [ShardingRule.containsTable, tableRule?_ofSettings_eq_none hnone]
      rfl
    · rw [Catalog.containsTable, hcatalog]
      rfl

/-- Settings with two tables, one of them without columns and looked for in another case. -/
theorem settings_represented_two : ∃ s : Settings,
    s.sharding.tables = [⟨"T_Order", ["user_id"], some "ID", ["id", "user_id"]⟩,
      ⟨"städte", ["Land"], none, []⟩] ∧ s.validate = .ok () ∧
    Represented (.ofSettings s.sharding) (.ofSettings s.sharding)
      ⟨"T_Order", ["user_id"], some "ID", ["id", "user_id"]⟩ "t_order" ∧
    Represented (.ofSettings s.sharding) (.ofSettings s.sharding)
      ⟨"städte", ["Land"], none, []⟩ "STÄDTE" ∧
    (ShardingRule.ofSettings s.sharding).containsTable "stadte" = false := by
  have hvalid : ({ sharding := { tables := [⟨"T_Order", ["user_id"], some "ID", ["id", "user_id"]⟩,
      ⟨"städte", ["Land"], none, []⟩] } } : Settings).validate = .ok () := by decide +kernel
  obtain ⟨hall, hnone⟩ := settings_represented hvalid
  exact ⟨_, rfl, hvalid, hall _ (by decide) _ (by decide +kernel),
    hall _ (by decide) _ (by decide +kernel), (hnone "stadte" (by decide +kernel)).1⟩

end SqlFront

import SqlFront.Proofs.Table.Single

/-!
# Table lists as ordered sets

However a table list has been filled, it has of the references that were added the first of each
kind, in the order in which they came. Two references are of a kind when their names and aliases
differ at most in the case of ASCII letters. The names of the list are in the same way the first of
each kind among the names of its references.
-/

set_option autoImplicit false

namespace SqlFront

/-! ## First occurrences -/

section Occurrences

variable {α β : Type} [DecidableEq β] {key : α → β} {same : α → α → Bool} {l : List α} {a : α}

def firstOccurrences (key : α → β) (l : List α) : List α :=
  (l.zipIdx.filter fun p => key p.1 ∉ (l.take p.2).map key).map Prod.fst

theorem firstOccurrences_concat : firstOccurrences key (l ++ [a]) =
    if key a ∈ l.map key then firstOccurrences key l else firstOccurrences key l ++ [a] := by
  have hfront : l.zipIdx.filter (fun p => key p.1 ∉ ((l ++ [a]).take p.2).map key) =
      l.zipIdx.filter (fun p => key p.1 ∉ (l.take p.2).map key) := by
    apply List.filter_congr
    rintro ⟨x, i⟩ hx
    have hi : i ≤ l.length := (List.snd_lt_of_mem_zipIdx hx).le.trans (by simp)
    rw [List.take_append_of_le_length hi]
  unfold firstOccurrences
  rw [List.zipIdx_append, List.filter_append, hfront, List.map_append]
  by_cases ha : key a ∈ l.map key <;> simp [ha]

theorem map_firstOccurrences_mem {k : β} :
    k ∈ (firstOccurrences key l).map key ↔ k ∈ l.map key := by
  induction l using List.reverseRecOn with
  | nil => rfl
  | append_singleton l a ih =>
    rw [firstOccurrences_concat]
    split
    · next ha =>
      rw [ih, List.map_append, List.mem_append, List.map_singleton, List.mem_singleton]
      exact ⟨Or.inl, fun h => h.elim id fun hk => hk ▸ ha⟩
    · rw [List.map_append, List.map_append, List.mem_append, List.mem_append, ih]

/-- No key has two first occurrences. -/
theorem nodup_map_firstOccurrences : ((firstOccurrences key l).map key).Nodup := by
  induction l using List.reverseRecOn with
  | nil => exact List.nodup_nil
  | append_singleton l a ih =>
    rw [firstOccurrences_concat]
    split
    · exact ih
    · next ha =>
      rw [List.map_append, List.map_singleton]
      refine ih.append (List.nodup_singleton _) ?_
      rw [List.disjoint_singleton]
      exact fun h => ha (map_firstOccurrences_mem.1 h)

theorem foldl_eq_firstOccurrences (hsame : ∀ x y, same x y = true ↔ key x = key y) :
    l.foldl (fun kept x => if kept.any (fun y => same y x) then kept else kept ++ [x]) [] =
      firstOccurrences key l := by
  induction l using List.reverseRecOn with
  | nil => rfl
  | append_singleton l a ih =>
    have hkept : (firstOccurrences key l).any (fun y => same y a) = true ↔ key a ∈ l.map key := by
      rw [← map_firstOccurrences_mem, List.any_eq_true, List.mem_map]
      simp only [hsame]
    rw [List.foldl_append, List.foldl_cons, List.foldl_nil, ih, firstOccurrences_concat]
    exact if_congr hkept rfl rfl

end Occurrences

/-! ## References of a kind -/

variable {ts us : Tables} {t : Table} {l : List Table} {x : String}

namespace Table

/-- What two references of a kind have in common: the name, and the alias if there is one, without
the case of ASCII letters. -/
def key (t : Table) : List Char × Option (List Char) := (foldCase t.name, t.alias?.map foldCase)

theorem same_iff (a b : Table) : a.same b = true ↔ a.key = b.key := by
  obtain ⟨n, alias?⟩ := a
  obtain ⟨m, alias'?⟩ := b
  cases alias? <;> cases alias'? <;> simp [same, sameName?, key, sameName_iff]

end Table

namespace Tables

theorem add_entries : (ts.add t).entries =
    if ts.entries.any (fun u => u.same t) then ts.entries else ts.entries ++ [t] := by
  unfold add
  split <;> rfl

theorem foldl_add_entries : (l.foldl add ts).entries = l.foldl
    (fun kept t => if kept.any (fun u => u.same t) then kept else kept ++ [t]) ts.entries := by
  induction l generalizing ts with
  | nil => rfl
  | cons t l ih => rw [List.foldl_cons, List.foldl_cons, ih, add_entries]

theorem entries_foldl_add : (l.foldl add empty).entries = firstOccurrences Table.key l := by
  rw [foldl_add_entries]
  exact foldl_eq_firstOccurrences Table.same_iff

theorem names_eq : ts.names = firstOccurrences foldCase (ts.entries.map Table.name) :=
  foldl_eq_firstOccurrences fun _ _ => sameName_iff

theorem add_of_key_mem (h : t.key ∈ ts.entries.map Table.key) : ts.add t = ts := by
  obtain ⟨u, hu, hkey⟩ := List.mem_map.1 h
  unfold add
  rw [if_pos (List.any_eq_true.2 ⟨u, hu, (u.same_iff t).2 hkey⟩)]

theorem key_mem_add : t.key ∈ (ts.add t).entries.map Table.key := by
  by_cases h : t.key ∈ ts.entries.map Table.key
  · rwa [add_of_key_mem h]
  · rw [add_entries]
    split
    · next hany =>
      obtain ⟨u, hu, hsame⟩ := List.any_eq_true.1 hany
      exact (h (List.mem_map.2 ⟨u, hu, (u.same_iff t).1 hsame⟩)).elim
    · simp

theorem extend_of_keys_mem (h : ∀ u ∈ us.entries, u.key ∈ ts.entries.map Table.key) :
    ts.extend us = ts := by
  obtain ⟨l⟩ := us
  unfold extend
  induction l with
  | nil => rfl
  | cons t l ih =>
    rw [List.foldl_cons, add_of_key_mem (h t List.mem_cons_self)]
    exact ih fun u hu => h u (List.mem_cons_of_mem _ hu)

theorem key_mem_extend (h : t ∈ us.entries) : t.key ∈ (ts.extend us).entries.map Table.key := by
  obtain ⟨l⟩ := us
  obtain ⟨before, behind, rfl⟩ := List.append_of_mem h
  rw [← List.singleton_append, ← List.append_assoc, extend_append, extend_append]
  exact (entries_prefix_extend.map Table.key).subset key_mem_add

theorem extend_extend : (ts.extend us).extend us = ts.extend us :=
  extend_of_keys_mem fun _ hu => key_mem_extend hu

/-- All references of the list are to one table. -/
theorem isSingle_iff_names : ts.isSingle = true ↔ ts.entries ≠ [] ∧
    ∀ a ∈ ts.entries, ∀ b ∈ ts.entries, foldCase a.name = foldCase b.name := by
  rw [isSingle_iff]
  simp only [containsName_iff, HasName, List.mem_map, exists_exists_and_eq_and, sameName_iff]
  constructor
  · rintro ⟨⟨n, a, ha, -⟩, hall⟩
    exact ⟨List.ne_nil_of_mem ha, fun a ha b hb => hall _ _ ⟨a, ha, rfl⟩ ⟨b, hb, rfl⟩⟩
  · rintro ⟨hne, hall⟩
    obtain ⟨t, ht⟩ := List.exists_mem_of_ne_nil _ hne
    refine ⟨⟨t.name, t, ht, rfl⟩, ?_⟩
    rintro n m ⟨a, ha, hn⟩ ⟨b, hb, hm⟩
    rw [← hn, ← hm]
    exact hall a ha b hb

end Tables

/-! ## Looking for a reference -/

namespace Table

def IsNamed (x : String) (t : Table) : Prop := foldCase t.name = foldCase x

/-- The reference has an alias, and it is this one, whatever the case of ASCII letters. -/
def IsAliased (x : String) (t : Table) : Prop := t.alias?.map foldCase = some (foldCase x)

theorem any_alias_iff : (t.alias?.any fun a => sameName a x) = true ↔ t.IsAliased x := by
  unfold IsAliased
  cases t.alias? <;> simp [sameName_iff]

end Table

def IsFirst {α : Type} (p : α → Prop) (l : List α) (a : α) : Prop :=
  ∃ before behind, l = before ++ a :: behind ∧ p a ∧ ∀ b ∈ before, ¬p b

theorem find?_eq_some_iff_isFirst {α : Type} {p : α → Prop} {f : α → Bool} {l : List α} {a : α}
    (hf : ∀ a, f a = true ↔ p a) : l.find? f = some a ↔ IsFirst p l a := by
  rw [List.find?_eq_some_iff_append]
  simp only [Bool.not_eq_eq_eq_not, Bool.not_true, ← Bool.not_eq_true, hf, IsFirst]
  constructor
  · rintro ⟨ha, before, behind, heq, hnone⟩
    exact ⟨before, behind, heq, ha, hnone⟩
  · rintro ⟨before, behind, heq, ha, hnone⟩
    exact ⟨ha, before, behind, heq, hnone⟩

theorem Tables.find?_eq_some_iff : ts.find? x = some t ↔ IsFirst (Table.IsNamed x) ts.entries t ∨
    ((∀ u ∈ ts.entries, ¬u.IsNamed x) ∧ IsFirst (Table.IsAliased x) ts.entries t) := by
  have hnamed : ∀ u : Table, sameName u.name x = true ↔ u.IsNamed x := fun _ => sameName_iff
  unfold Tables.find?
  rw [Option.or_eq_some_iff, find?_eq_some_iff_isFirst hnamed, List.find?_eq_none,
    find?_eq_some_iff_isFirst fun _ => Table.any_alias_iff]
  simp only [hnamed]

theorem Tables.find?_eq_none_iff :
    ts.find? x = none ↔ ∀ u ∈ ts.entries, ¬u.IsNamed x ∧ ¬u.IsAliased x := by
  have hnamed : ∀ u : Table, sameName u.name x = true ↔ u.IsNamed x := fun _ => sameName_iff
  unfold Tables.find?
  rw [Option.or_eq_none_iff, List.find?_eq_none, List.find?_eq_none]
  simp only [hnamed, Table.any_alias_iff, ← forall_and]

/-! ## Every use of a table list -/

inductive TablesUse where
  | add (t : Table)
  | extend (other : Tables)

namespace TablesUse

def step (ts : Tables) : TablesUse → Tables
  | .add t => ts.add t
  | .extend other => ts.extend other

def reached (uses : List TablesUse) : Tables := uses.foldl step .empty

def references : TablesUse → List Table
  | .add t => [t]
  | .extend other => other.entries

theorem step_eq (use : TablesUse) : step ts use = use.references.foldl Tables.add ts := by
  cases use <;> rfl

theorem reached_eq (uses : List TablesUse) :
    reached uses = (uses.flatMap references).foldl Tables.add .empty := by
  rw [List.foldl_flatMap]
  exact List.foldl_ext _ _ _ fun _ use _ => step_eq use

theorem reached_append (uses more : List TablesUse) :
    reached (uses ++ more) = more.foldl step (reached uses) := List.foldl_append

end TablesUse

open TablesUse

/-- Whatever is asked of a table list that starts empty, it has the first occurrences of the
references that were added, so that no two of them are of a kind. Extending it is adding one by one,
and the second time it changes nothing. Its names are the first occurrences of their names, there is
one of them exactly if there are references and all have the same name, and the reference that is
found is the first with the name, or else the first with the alias. -/
theorem tables_ordered_set (uses : List TablesUse) :
    (reached uses).entries = firstOccurrences Table.key (uses.flatMap references) ∧
    ((reached uses).entries.map Table.key).Nodup ∧
    (∀ other, reached (uses ++ [.extend other]) = reached (uses ++ other.entries.map .add) ∧
      reached (uses ++ [.extend other, .extend other]) = reached (uses ++ [.extend other])) ∧
    (reached uses).names = firstOccurrences foldCase ((reached uses).entries.map Table.name) ∧
    ((reached uses).names.map foldCase).Nodup ∧
    ((reached uses).isSingle = true ↔ (reached uses).entries ≠ [] ∧
      ∀ a ∈ (reached uses).entries, ∀ b ∈ (reached uses).entries,
        foldCase a.name = foldCase b.name) ∧
    ∀ x,
      (∀ t, (reached uses).find? x = some t ↔
        IsFirst (Table.IsNamed x) (reached uses).entries t ∨
          ((∀ u ∈ (reached uses).entries, ¬u.IsNamed x) ∧
            IsFirst (Table.IsAliased x) (reached uses).entries t)) ∧
      ((reached uses).find? x = none ↔
        ∀ u ∈ (reached uses).entries, ¬u.IsNamed x ∧ ¬u.IsAliased x) := by
  have hentries : (reached uses).entries = firstOccurrences Table.key (uses.flatMap references) := by
    rw [reached_eq, Tables.entries_foldl_add]
  have hone : ∀ other : Tables,
      reached (uses ++ [.extend other]) = reached (uses ++ other.entries.map .add) := by
    intro other
    rw [reached_append, reached_append, List.foldl_map]
    rfl
  have htwice : ∀ other,
      reached (uses ++ [.extend other, .extend other]) = reached (uses ++ [.extend other]) := by
    intro other
    rw [reached_append, reached_append]
    exact Tables.extend_extend
  refine ⟨hentries, hentries ▸ nodup_map_firstOccurrences, fun other => ⟨hone other, htwice other⟩,
    Tables.names_eq, ?_, Tables.isSingle_iff_names,
    fun x => ⟨fun t => Tables.find?_eq_some_iff, Tables.find?_eq_none_iff⟩⟩
  rw [Tables.names_eq]
  exact nodup_map_firstOccurrences

/-- Two of the three references are of a kind. -/
example : (reached [.add ⟨"t_order", some "o"⟩,
    .extend ⟨[⟨"T_ORDER", some "O"⟩, ⟨"t_order", none⟩]⟩]).entries =
      [⟨"t_order", some "o"⟩, ⟨"t_order", none⟩] := by decide

end SqlFront

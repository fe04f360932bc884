import Mathlib
import SqlFront.Cache

/-!
# The cache changes no answer

A cache keeps under every dialect and text the statement that the text has. Looking up, putting,
giving up entries and clearing leave it so, whatever entry is given up, and a text without a
statement is never kept. With or without the cache the answers are therefore the same.
-/

set_option autoImplicit false

namespace SqlFront

variable {rule : ShardingRule} {catalog : Catalog} {c : Cache} {key : CacheKey} {s : Statement}
  {place : ℕ} {d : Dialect} {sql : String} {f : Fault}

/-! ## Keyed lists -/

namespace KeyedList

variable {κ α : Type} [DecidableEq κ] {k : κ} {a b : α} {l : List (κ × α)}

theorem mem_of_get? (h : get? k l = some a) : (k, a) ∈ l := by
  induction l with
  | nil => cases h
  | cons p l ih =>
    obtain ⟨i, v⟩ := p
    unfold get? at h
    split at h
    · next hk =>
      obtain rfl := Option.some.inj h
      rw [hk]
      exact List.mem_cons_self
    · exact List.mem_cons_of_mem _ (ih h)

theorem mem_put {p : κ × α} (h : p ∈ put k a l) : p = (k, a) ∨ p ∈ l := by
  induction l with
  | nil => exact Or.inl (List.mem_singleton.1 h)
  | cons q l ih =>
    obtain ⟨i, v⟩ := q
    unfold put at h
    split at h
    · next hk =>
      rcases List.mem_cons.1 h with rfl | h
      · exact Or.inl (by rw [hk])
      · exact Or.inr (List.mem_cons_of_mem _ h)
    · rcases List.mem_cons.1 h with rfl | h
      · exact Or.inr List.mem_cons_self
      · exact (ih h).imp_right (List.mem_cons_of_mem _)

end KeyedList

/-! ## What is kept -/

namespace Cache

def Faithful (rule : ShardingRule) (catalog : Catalog) (c : Cache) : Prop :=
  ∀ key s, (key, s) ∈ c.entries → SqlFront.parse key.dialect rule catalog key.text = .ok s

theorem faithful_ofCapacity (n : ℕ) : (ofCapacity n).Faithful rule catalog := by
  intro key s h
  cases h

theorem faithful_clear : c.clear.Faithful rule catalog := by
  intro key s h
  cases h

theorem Faithful.evict (h : c.Faithful rule catalog) (place : ℕ) :
    (c.evict place).Faithful rule catalog :=
  fun key s hs => h key s (List.mem_of_mem_eraseIdx hs)

theorem Faithful.put (h : c.Faithful rule catalog)
    (hs : SqlFront.parse key.dialect rule catalog key.text = .ok s) (place : ℕ) :
    (c.put place key s).Faithful rule catalog := by
  intro key' s' h'
  rcases KeyedList.mem_put h' with heq | hmem
  · obtain ⟨rfl, rfl⟩ := Prod.mk.inj heq
    exact hs
  · split at hmem
    · exact h.evict place key' s' hmem
    · exact h key' s' hmem

@[simp] theorem get_entries (key : CacheKey) (c : Cache) : (c.get key).2.entries = c.entries := by
  unfold get
  split <;> rfl

theorem Faithful.get (h : c.Faithful rule catalog) (key : CacheKey) :
    (c.get key).2.Faithful rule catalog := by
  intro key' s hs
  rw [get_entries] at hs
  exact h key' s hs

theorem Faithful.get_found (h : c.Faithful rule catalog) (hs : (c.get key).1 = some s) :
    SqlFront.parse key.dialect rule catalog key.text = .ok s := by
  apply h
  apply KeyedList.mem_of_get?
  unfold Cache.get at hs
  split at hs
  · next s' hget => exact hget.trans hs
  · cases hs

/-! ## One parse -/

theorem parse_missed (hmiss : (c.get ⟨d, sql⟩).1 = none) :
    c.parse true place d rule catalog sql =
      match SqlFront.parse d rule catalog sql with
      | .ok s => (.ok s, (c.get ⟨d, sql⟩).2.put place ⟨d, sql⟩ s)
      | .error f => (.error f, (c.get ⟨d, sql⟩).2) := by
  simp only [Cache.parse, if_true]
  generalize c.get ⟨d, sql⟩ = r at hmiss ⊢
  obtain ⟨found?, c'⟩ := r
  obtain rfl : found? = none := hmiss
  rfl

theorem parse_found (hfound : (c.get ⟨d, sql⟩).1 = some s) :
    c.parse true place d rule catalog sql = (.ok s, (c.get ⟨d, sql⟩).2) := by
  simp only [Cache.parse, if_true]
  generalize c.get ⟨d, sql⟩ = r at hfound ⊢
  obtain ⟨found?, c'⟩ := r
  obtain rfl : found? = some s := hfound
  rfl

/-- With a faithful cache a text has the answer that it has without one. -/
theorem Faithful.parse_answer (h : c.Faithful rule catalog) (useCache : Bool) (place : ℕ)
    (d : Dialect) (sql : String) :
    (c.parse useCache place d rule catalog sql).1 = SqlFront.parse d rule catalog sql := by
  cases useCache with
  | false => rfl
  | true =>
    cases hget : (c.get ⟨d, sql⟩).1 with
    | some s =>
      rw [parse_found hget]
      exact (h.get_found hget).symm
    | none =>
      rw [parse_missed hget]
      cases SqlFront.parse d rule catalog sql <;> rfl

theorem Faithful.parse (h : c.Faithful rule catalog) (useCache : Bool) (place : ℕ) (d : Dialect)
    (sql : String) : (c.parse useCache place d rule catalog sql).2.Faithful rule catalog := by
  cases useCache with
  | false => exact h
  | true =>
    cases hget : (c.get ⟨d, sql⟩).1 with
    | some s =>
      rw [parse_found hget]
      exact h.get ⟨d, sql⟩
    | none =>
      rw [parse_missed hget]
      cases hp : SqlFront.parse d rule catalog sql with
      | ok s =>
        have hparse : SqlFront.parse (CacheKey.mk d sql).dialect rule catalog
            (CacheKey.mk d sql).text = .ok s := hp
        exact (h.get ⟨d, sql⟩).put hparse place
      | error f => exact h.get ⟨d, sql⟩

/-- A parse that answers with a fault leaves the entries as they are. -/
theorem parse_error_entries {useCache : Bool}
    (hf : (c.parse useCache place d rule catalog sql).1 = .error f) :
    (c.parse useCache place d rule catalog sql).2.entries = c.entries := by
  cases useCache with
  | false => rfl
  | true =>
    cases hget : (c.get ⟨d, sql⟩).1 with
    | some s =>
      rw [parse_found hget]
      exact get_entries ⟨d, sql⟩ c
    | none =>
      rw [parse_missed hget] at hf ⊢
      cases hp : SqlFront.parse d rule catalog sql with
      | ok s =>
        rw [hp] at hf
        cases hf
      | error f' => exact get_entries ⟨d, sql⟩ c

end Cache

/-! ## Every use of a cache -/

/-- What is asked of a cache: a parse, with the place of the entry that a full cache gives up, or
that everything is given up. -/
inductive CacheUse where
  | parse (useCache : Bool) (place : ℕ) (d : Dialect) (sql : String)
  | clear

namespace CacheUse

def step (rule : ShardingRule) (catalog : Catalog) : CacheUse → Cache → Cache
  | .parse useCache place d sql, c => (c.parse useCache place d rule catalog sql).2
  | .clear, c => c.clear

def reached (rule : ShardingRule) (catalog : Catalog) : List CacheUse → Cache → Cache
  | [], c => c
  | use :: uses, c => reached rule catalog uses (use.step rule catalog c)

def answers (rule : ShardingRule) (catalog : Catalog) :
    List CacheUse → Cache → List (Except Fault Statement)
  | [], _ => []
  | .parse useCache place d sql :: uses, c =>
    (c.parse useCache place d rule catalog sql).1 ::
      answers rule catalog uses (c.parse useCache place d rule catalog sql).2
  | .clear :: uses, c => answers rule catalog uses c.clear

def uncached (rule : ShardingRule) (catalog : Catalog) : CacheUse → Option (Except Fault Statement)
  | .parse _ _ d sql => some (SqlFront.parse d rule catalog sql)
  | .clear => none

theorem step_faithful (h : c.Faithful rule catalog) (use : CacheUse) :
    (use.step rule catalog c).Faithful rule catalog := by
  cases use with
  | parse useCache place d sql => exact h.parse useCache place d sql
  | clear => exact Cache.faithful_clear

theorem reached_faithful (h : c.Faithful rule catalog) (uses : List CacheUse) :
    (reached rule catalog uses c).Faithful rule catalog := by
  induction uses generalizing c with
  | nil => exact h
  | cons use uses ih => exact ih (step_faithful h use)

theorem answers_uncached (h : c.Faithful rule catalog) (uses : List CacheUse) :
    answers rule catalog uses c = uses.filterMap (uncached rule catalog) := by
  induction uses generalizing c with
  | nil => rfl
  | cons use uses ih =>
    have hnext := ih (step_faithful h use)
    cases use with
    | parse useCache place d sql =>
      show _ :: _ = SqlFront.parse d rule catalog sql :: _
      rw [h.parse_answer]
      exact congrArg _ hnext
    | clear => exact hnext

end CacheUse

/-- Every parse of a use of a cache that starts empty answers as it does without one, whatever the
full cache gives up, and a parse that answers with a fault leaves the entries as they are. -/
theorem cache_transparent (rule : ShardingRule) (catalog : Catalog) (capacity : ℕ)
    (uses : List CacheUse) :
    CacheUse.answers rule catalog uses (.ofCapacity capacity) =
        uses.filterMap (CacheUse.uncached rule catalog) ∧
      ∀ useCache place d sql c,
        c = CacheUse.reached rule catalog uses (.ofCapacity capacity) →
        (c.parse useCache place d rule catalog sql).1 = SqlFront.parse d rule catalog sql ∧
          ∀ f, (c.parse useCache place d rule catalog sql).1 = .error f →
            (c.parse useCache place d rule catalog sql).2.entries = c.entries := by
  have hempty : (Cache.ofCapacity capacity).Faithful rule catalog :=
    Cache.faithful_ofCapacity capacity
  refine ⟨CacheUse.answers_uncached hempty uses, ?_⟩
  rintro useCache place d sql c rfl
  have hkept := CacheUse.reached_faithful hempty uses
  exact ⟨hkept.parse_answer useCache place d sql, fun f => Cache.parse_error_entries⟩

/-- A cache with room for one statement: the second text takes the place of the first, which is then
read again, and the text without a statement changes nothing. -/
theorem cache_transparent_full : ∃ c f,
    c = CacheUse.reached ⟨[], none⟩ ⟨[]⟩ [.parse true 0 .mysql "COMMIT",
      .parse true 0 .mysql "ROLLBACK", .parse true 0 .mysql "COMMIT"] (.ofCapacity 1) ∧
    c.evictions = 2 ∧
    (c.parse true 0 .mysql ⟨[], none⟩ ⟨[]⟩ "FOO").1 = .error f ∧
    (c.parse true 0 .mysql ⟨[], none⟩ ⟨[]⟩ "FOO").2.entries = c.entries := by
  refine ⟨_, _, rfl, by decide +kernel, rfl, ?_⟩
  exact ((cache_transparent ⟨[], none⟩ ⟨[]⟩ 1 _).2 true 0 .mysql "FOO" _ rfl).2 _ rfl

end SqlFront

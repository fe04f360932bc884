import SqlFront.Proofs.Cache

/-!
# The accounts of a cache

A cache is used by look-ups, puts, parses and clearings. Whatever entries it gives up, it holds one
entry for every key put that was not there, less one for every entry given up, and it gives one up
only for a new key that it has no room for. Its counters count the look-ups and what it gave up.
-/

set_option autoImplicit false

namespace SqlFront

variable {c c' : Cache} {key : CacheKey} {s : Statement} {place : ℕ} {d : Dialect}
  {rule : ShardingRule} {catalog : Catalog} {sql : String}

/-! ## Keys -/

namespace KeyedList

variable {κ α : Type} [DecidableEq κ] {k : κ} {a : α} {l : List (κ × α)}

theorem get?_isSome_iff : (get? k l).isSome = true ↔ k ∈ l.map Prod.fst := by
  induction l with
  | nil => simp [get?]
  | cons p l ih =>
    obtain ⟨i, v⟩ := p
    by_cases hi : i = k
    · simp [get?, hi]
    · simp only [get?, if_neg hi, ih, List.map_cons, List.mem_cons]
      exact ⟨.inr, fun h => h.resolve_left (Ne.symm hi)⟩

theorem keys_put : (put k a l).map Prod.fst =
    if k ∈ l.map Prod.fst then l.map Prod.fst else l.map Prod.fst ++ [k] := by
  induction l with
  | nil => rfl
  | cons p l ih =>
    obtain ⟨i, v⟩ := p
    by_cases hi : i = k
    · simp [put, hi]
    · have hmem : k ∈ i :: l.map Prod.fst ↔ k ∈ l.map Prod.fst := by
        simp [Ne.symm hi]
      simp only [put, if_neg hi, List.map_cons, ih, hmem]
      split <;> rfl

end KeyedList

namespace Cache

def keys (c : Cache) : List CacheKey := c.entries.map Prod.fst

@[simp] theorem length_keys (c : Cache) : c.keys.length = c.size := List.length_map _

theorem contains_iff : c.contains key = true ↔ key ∈ c.keys := KeyedList.get?_isSome_iff

theorem keys_get (key : CacheKey) (c : Cache) : (c.get key).2.keys = c.keys := by
  rw [keys, get_entries, keys]

theorem size_get (key : CacheKey) (c : Cache) : (c.get key).2.size = c.size :=
  congrArg List.length (get_entries key c)

theorem get_capacity (key : CacheKey) (c : Cache) : (c.get key).2.capacity = c.capacity := by
  unfold get
  split <;> rfl

theorem get_evictions (key : CacheKey) (c : Cache) : (c.get key).2.evictions = c.evictions := by
  unfold get
  split <;> rfl

theorem get_lookups (key : CacheKey) (c : Cache) :
    (c.get key).2.hits + (c.get key).2.misses = c.hits + c.misses + 1 := by
  unfold get
  split
  · exact Nat.add_right_comm c.hits 1 c.misses
  · rfl

/-! ## One put -/

structure WellKept (c : Cache) : Prop where
  distinct : c.keys.Nodup
  size_le : c.size ≤ c.capacity
  room : 1 ≤ c.capacity

theorem wellKept_ofCapacity (n : ℕ) : (ofCapacity n).WellKept :=
  ⟨List.nodup_nil, Nat.zero_le _, Nat.le_max_right n 1⟩

theorem WellKept.get (h : c.WellKept) (key : CacheKey) : (c.get key).2.WellKept := by
  refine ⟨?_, ?_, ?_⟩
  · rw [keys_get]
    exact h.distinct
  · rw [size_get, get_capacity]
    exact h.size_le
  · rw [get_capacity]
    exact h.room

inductive PutInto (key : CacheKey) (c c' : Cache) : Prop
  | replaced : key ∈ c.keys → c'.keys = c.keys → c'.evictions = c.evictions → PutInto key c c'
  | added : key ∉ c.keys → c.size < c.capacity → c'.keys = c.keys ++ [key] →
      c'.evictions = c.evictions → PutInto key c c'
  | exchanged (victim : CacheKey) : key ∉ c.keys → c.size = c.capacity → victim ∈ c.keys →
      c'.keys = c.keys.erase victim ++ [key] → c'.evictions = c.evictions + 1 → PutInto key c c'

theorem put_of_mem (h : key ∈ c.keys) : c.put place key s =
    { c with entries := KeyedList.put key s c.entries } := by
  simp [put, contains_iff.2 h]

theorem put_of_room (h : c.size < c.capacity) : c.put place key s =
    { c with entries := KeyedList.put key s c.entries } := by
  simp [put, isFull, Nat.not_le.2 h]

theorem put_of_full (h : key ∉ c.keys) (hfull : c.capacity ≤ c.size) : c.put place key s =
    { c.evict place with entries := KeyedList.put key s (c.evict place).entries } := by
  have hnot : c.contains key = false := Bool.eq_false_iff.2 fun hmem => h (contains_iff.1 hmem)
  simp [put, isFull, hnot, hfull]

theorem WellKept.keys_evict (h : c.WellKept) (hplace : place % c.size < c.keys.length) :
    (c.evict place).keys = c.keys.erase (c.keys[place % c.size]) := by
  rw [h.distinct.erase_getElem, keys, evict, keys, List.eraseIdx_map]

theorem WellKept.putInto (h : c.WellKept) (place : ℕ) (key : CacheKey) (s : Statement) :
    PutInto key c (c.put place key s) := by
  by_cases hmem : key ∈ c.keys
  · have hkeys : (KeyedList.put key s c.entries).map Prod.fst = c.keys :=
      KeyedList.keys_put.trans (if_pos hmem)
    rw [put_of_mem hmem]
    exact .replaced hmem hkeys rfl
  rcases h.size_le.lt_or_eq with hroom | hfull
  · have hkeys : (KeyedList.put key s c.entries).map Prod.fst = c.keys ++ [key] :=
      KeyedList.keys_put.trans (if_neg hmem)
    rw [put_of_room hroom]
    exact .added hmem hroom hkeys rfl
  · have hpos : 0 < c.size := by rw [hfull]; exact h.room
    have hplace : place % c.size < c.keys.length := by
      rw [length_keys]
      exact Nat.mod_lt _ hpos
    have hevict := h.keys_evict hplace
    have hgone : key ∉ (c.evict place).keys := by
      rw [hevict]
      exact fun hkey => hmem (List.mem_of_mem_erase hkey)
    have hkeys : (KeyedList.put key s (c.evict place).entries).map Prod.fst =
        (c.evict place).keys ++ [key] := KeyedList.keys_put.trans (if_neg hgone)
    rw [hevict] at hkeys
    rw [put_of_full hmem hfull.ge]
    exact .exchanged _ hmem hfull (List.getElem_mem hplace) hkeys rfl

/-- Any entry can be the one that is given up. -/
theorem WellKept.exists_place {victim : CacheKey} (h : c.WellKept) (hmem : key ∉ c.keys)
    (hfull : c.size = c.capacity) (hvictim : victim ∈ c.keys) (s : Statement) :
    ∃ place, (c.put place key s).keys = c.keys.erase victim ++ [key] := by
  obtain ⟨place, hlt, rfl⟩ := List.getElem_of_mem hvictim
  have hsize : place < c.size := by rwa [length_keys] at hlt
  have hmod : place % c.size = place := Nat.mod_eq_of_lt hsize
  have hevict := h.keys_evict (by rwa [hmod] : place % c.size < c.keys.length)
  simp only [hmod] at hevict
  have hgone : key ∉ (c.evict place).keys := by
    rw [hevict]
    exact fun hkey => hmem (List.mem_of_mem_erase hkey)
  refine ⟨place, ?_⟩
  rw [put_of_full hmem hfull.ge, ← hevict]
  exact KeyedList.keys_put.trans (if_neg hgone)

theorem put_capacity : (c.put place key s).capacity = c.capacity := by
  unfold put
  split <;> rfl

theorem put_hits : (c.put place key s).hits = c.hits := by
  unfold put
  split <;> rfl

theorem put_misses : (c.put place key s).misses = c.misses := by
  unfold put
  split <;> rfl

theorem get_put : ((c.put place key s).get key).1 = some s := by
  have hfound : KeyedList.get? key (c.put place key s).entries = some s := by
    unfold put
    exact KeyedList.get?_put_self key s _
  rw [get, hfound]

/-- What a put does to the number of entries. -/
theorem PutInto.size (h : PutInto key c c') :
    c'.size + (c'.evictions - c.evictions) = c.size + if key ∈ c.keys then 0 else 1 := by
  have hsize := length_keys c'
  cases h with
  | replaced hmem hkeys hevictions =>
    rw [hkeys, length_keys] at hsize
    rw [if_pos hmem, hevictions]
    omega
  | added hmem _ hkeys hevictions =>
    rw [hkeys, List.length_append, length_keys, List.length_singleton] at hsize
    rw [if_neg hmem, hevictions]
    omega
  | exchanged victim hmem _ hvictim hkeys hevictions =>
    have hlt := List.length_pos_of_mem hvictim
    rw [hkeys, List.length_append, List.length_erase_of_mem hvictim, length_keys,
      List.length_singleton] at hsize
    rw [length_keys] at hlt
    rw [if_neg hmem, hevictions]
    omega

theorem PutInto.lost_iff (h : PutInto key c c') (hkept : c.WellKept) :
    (∃ k ∈ c.keys, k ∉ c'.keys) ↔ key ∉ c.keys ∧ c.size = c.capacity := by
  cases h with
  | replaced hmem hkeys _ =>
    rw [hkeys]
    exact iff_of_false (fun ⟨k, hk, hlost⟩ => hlost hk) fun hnot => hnot.1 hmem
  | added hmem hroom hkeys _ =>
    rw [hkeys]
    exact iff_of_false (fun ⟨k, hk, hlost⟩ => hlost (List.mem_append_left _ hk))
      fun hfull => Nat.ne_of_lt hroom hfull.2
  | exchanged victim hmem hfull hvictim hkeys _ =>
    refine iff_of_true ⟨victim, hvictim, ?_⟩ ⟨hmem, hfull⟩
    rw [hkeys, List.mem_append, List.mem_singleton]
    rintro (hlost | rfl)
    · exact hkept.distinct.not_mem_erase hlost
    · exact hmem hvictim

theorem PutInto.wellKept (h : PutInto key c c') (hkept : c.WellKept)
    (hcapacity : c'.capacity = c.capacity) : c'.WellKept := by
  have hsize := h.size
  have hle := hkept.size_le
  have hroom := hkept.room
  cases h with
  | replaced hmem hkeys hevictions =>
    rw [if_pos hmem, hevictions] at hsize
    exact ⟨hkeys ▸ hkept.distinct, by omega, by omega⟩
  | added hmem hlt hkeys hevictions =>
    rw [if_neg hmem, hevictions] at hsize
    refine ⟨?_, by omega, by omega⟩
    rw [hkeys, ← List.concat_eq_append]
    exact hkept.distinct.concat hmem
  | exchanged victim hmem hfull hvictim hkeys hevictions =>
    rw [if_neg hmem, hevictions] at hsize
    refine ⟨?_, by omega, by omega⟩
    rw [hkeys, ← List.concat_eq_append]
    exact (hkept.distinct.erase victim).concat fun hkey => hmem (List.mem_of_mem_erase hkey)

theorem PutInto.of_get {k : CacheKey} (h : PutInto key (c.get k).2 c') : PutInto key c c' := by
  have hkeys := keys_get k c
  have hsize := size_get k c
  have hcapacity := get_capacity k c
  have hcount := get_evictions k c
  cases h with
  | replaced hmem hsame hevictions =>
    rw [hkeys] at hmem hsame
    exact .replaced hmem hsame (hevictions.trans hcount)
  | added hmem hroom hadded hevictions =>
    rw [hkeys] at hmem hadded
    rw [hsize, hcapacity] at hroom
    exact .added hmem hroom hadded (hevictions.trans hcount)
  | exchanged victim hmem hfull hvictim hexchanged hevictions =>
    rw [hkeys] at hmem hvictim hexchanged
    rw [hsize, hcapacity] at hfull
    rw [hcount] at hevictions
    exact .exchanged victim hmem hfull hvictim hexchanged hevictions

theorem parse_cases (place : ℕ) (d : Dialect) (rule : ShardingRule) (catalog : Catalog)
    (sql : String) (c : Cache) :
    (((c.get ⟨d, sql⟩).1.isNone && (SqlFront.parse d rule catalog sql).isOk) = false ∧
      (c.parse true place d rule catalog sql).2 = (c.get ⟨d, sql⟩).2) ∨
    ∃ s, ((c.get ⟨d, sql⟩).1.isNone && (SqlFront.parse d rule catalog sql).isOk) = true ∧
      (c.parse true place d rule catalog sql).2 = (c.get ⟨d, sql⟩).2.put place ⟨d, sql⟩ s := by
  cases hget : (c.get ⟨d, sql⟩).1 with
  | some s =>
    rw [parse_found hget]
    exact .inl ⟨rfl, rfl⟩
  | none =>
    rw [parse_missed hget]
    cases SqlFront.parse d rule catalog sql with
    | error f => exact .inl ⟨rfl, rfl⟩
    | ok s => exact .inr ⟨s, rfl, rfl⟩

end Cache

/-! ## Every call -/

/-- What is asked of a cache. A call that may put a statement says the place of the entry to give
up. -/
inductive CacheCall where
  | get (key : CacheKey)
  | put (place : ℕ) (key : CacheKey) (s : Statement)
  | clear
  | parse (useCache : Bool) (place : ℕ) (d : Dialect) (rule : ShardingRule) (catalog : Catalog)
      (sql : String)

namespace CacheCall

variable {call : CacheCall} {calls past recent : List CacheCall} {p : CacheCall → Cache → Bool}

def step : CacheCall → Cache → Cache
  | .get key, c => (c.get key).2
  | .put place key s, c => c.put place key s
  | .clear, c => c.clear
  | .parse useCache place d rule catalog sql, c => (c.parse useCache place d rule catalog sql).2

def reached : List CacheCall → Cache → Cache
  | [], c => c
  | call :: calls, c => reached calls (call.step c)

def isClear : CacheCall → Bool
  | .clear => true
  | _ => false

def looksUp : CacheCall → Bool
  | .get _ => true
  | .parse useCache .. => useCache
  | _ => false

/-- The key that a call puts a statement under. A parse puts what it did not find and could read. -/
def put? : CacheCall → Cache → Option CacheKey
  | .put _ key _, _ => some key
  | .parse true _ d rule catalog sql, c =>
    if (c.get ⟨d, sql⟩).1.isNone && (SqlFront.parse d rule catalog sql).isOk then some ⟨d, sql⟩
    else none
  | _, _ => none

def adds (call : CacheCall) (c : Cache) : Bool := (call.put? c).any (· ∉ c.keys)

def evicts (call : CacheCall) (c : Cache) : Bool :=
  !call.isClear && c.keys.any (· ∉ (call.step c).keys)

def countAlong (p : CacheCall → Cache → Bool) : List CacheCall → Cache → ℕ
  | [], _ => 0
  | call :: calls, c => (p call c).toNat + countAlong p calls (call.step c)

inductive Outcome (call : CacheCall) (c c' : Cache) : Prop
  | cleared : call.isClear = true → c'.keys = [] → c'.evictions = c.evictions → Outcome call c c'
  | untouched : call.isClear = false → call.put? c = none → c'.keys = c.keys →
      c'.evictions = c.evictions → Outcome call c c'
  | filed (key : CacheKey) : call.isClear = false → call.put? c = some key →
      Cache.PutInto key c c' → Outcome call c c'

theorem step_outcome (h : c.WellKept) (call : CacheCall) : Outcome call c (call.step c) := by
  cases call with
  | get key => exact .untouched rfl rfl (Cache.keys_get key c) (Cache.get_evictions key c)
  | put place key s => exact .filed key rfl rfl (h.putInto place key s)
  | clear => exact .cleared rfl rfl rfl
  | parse useCache place d rule catalog sql =>
    cases useCache with
    | false => exact .untouched rfl rfl rfl rfl
    | true =>
      rcases Cache.parse_cases place d rule catalog sql c with ⟨hput, hstep⟩ | ⟨s, hput, hstep⟩
      · have hnone : put? (.parse true place d rule catalog sql) c = none := by
          simp only [put?, hput, Bool.false_eq_true, if_false]
        rw [step, hstep]
        exact .untouched rfl hnone (Cache.keys_get _ c) (Cache.get_evictions _ c)
      · have hsome : put? (.parse true place d rule catalog sql) c = some ⟨d, sql⟩ := by
          simp only [put?, hput, if_true]
        rw [step, hstep]
        exact .filed ⟨d, sql⟩ rfl hsome ((h.get ⟨d, sql⟩).putInto place ⟨d, sql⟩ s).of_get

theorem step_capacity (call : CacheCall) (c : Cache) : (call.step c).capacity = c.capacity := by
  cases call with
  | get key => exact Cache.get_capacity key c
  | put place key s => exact Cache.put_capacity
  | clear => rfl
  | parse useCache place d rule catalog sql =>
    cases useCache with
    | false => rfl
    | true =>
      have hget := Cache.get_capacity ⟨d, sql⟩ c
      rcases Cache.parse_cases place d rule catalog sql c with ⟨-, hstep⟩ | ⟨s, -, hstep⟩
      · rw [step, hstep, hget]
      · rw [step, hstep, Cache.put_capacity, hget]

theorem step_lookups (call : CacheCall) (c : Cache) :
    (call.step c).hits + (call.step c).misses = c.hits + c.misses + call.looksUp.toNat := by
  cases call with
  | get key => exact Cache.get_lookups key c
  | put place key s => rw [step, Cache.put_hits, Cache.put_misses]; rfl
  | clear => rfl
  | parse useCache place d rule catalog sql =>
    cases useCache with
    | false => rfl
    | true =>
      have hget := Cache.get_lookups ⟨d, sql⟩ c
      rcases Cache.parse_cases place d rule catalog sql c with ⟨-, hstep⟩ | ⟨s, -, hstep⟩
      · rw [step, hstep, hget]
        rfl
      · rw [step, hstep, Cache.put_hits, Cache.put_misses, hget]
        rfl

theorem step_wellKept (h : c.WellKept) (call : CacheCall) : (call.step c).WellKept := by
  have hcapacity := step_capacity call c
  cases step_outcome h call with
  | cleared _ hkeys _ =>
    have hsize := (Cache.length_keys (call.step c)).symm
    rw [hkeys, List.length_nil] at hsize
    have hroom := h.room
    exact ⟨hkeys ▸ List.nodup_nil, by omega, by omega⟩
  | untouched _ _ hkeys _ =>
    have hsize := (Cache.length_keys (call.step c)).symm
    rw [hkeys, Cache.length_keys] at hsize
    have hle := h.size_le
    have hroom := h.room
    exact ⟨hkeys ▸ h.distinct, by omega, by omega⟩
  | filed key _ _ hput => exact hput.wellKept h hcapacity

/-- A key disappears exactly if there is no room for a new one. -/
theorem evicts_iff (h : c.WellKept) (call : CacheCall) : call.evicts c = true ↔
    ∃ key, call.put? c = some key ∧ key ∉ c.keys ∧ c.size = c.capacity := by
  have hlost : (c.keys.any (· ∉ (call.step c).keys)) = true ↔
      ∃ k ∈ c.keys, k ∉ (call.step c).keys := by simp
  cases step_outcome h call with
  | cleared hclear _ _ =>
    cases call with
    | clear => simp [evicts, isClear, put?]
    | get _ => cases hclear
    | put _ _ _ => cases hclear
    | parse _ _ _ _ _ _ => cases hclear
  | untouched _ hnone hkeys _ => simp [evicts, hnone, hkeys]
  | filed key hclear hsome hput =>
    rw [evicts, hclear, Bool.not_false, Bool.true_and, hlost, hput.lost_iff h, hsome]
    exact ⟨fun hkey => ⟨key, rfl, hkey⟩, fun ⟨k, hk, hkey⟩ => Option.some.inj hk ▸ hkey⟩

theorem step_evictions (h : c.WellKept) (call : CacheCall) :
    (call.step c).evictions = c.evictions + (call.evicts c).toNat := by
  have hevicts := evicts_iff h call
  cases step_outcome h call with
  | cleared hclear _ hevictions => simp [evicts, hclear, hevictions]
  | untouched _ _ hkeys hevictions => simp [evicts, hkeys, hevictions]
  | filed key _ hsome hput =>
    simp only [hsome, Option.some.injEq, exists_eq_left'] at hevicts
    cases hput with
    | replaced hmem _ hevictions =>
      rw [Bool.eq_false_iff.2 fun hlost => (hevicts.1 hlost).1 hmem, hevictions]
      rfl
    | added _ hroom _ hevictions =>
      rw [Bool.eq_false_iff.2 fun hlost => Nat.ne_of_lt hroom (hevicts.1 hlost).2, hevictions]
      rfl
    | exchanged _ hmem hfull _ _ hevictions =>
      rw [hevicts.2 ⟨hmem, hfull⟩, hevictions]
      rfl

/-- What disappears is one key, and not the key of the put. -/
theorem evicts_one (h : c.WellKept) (hput : call.put? c = some key)
    (hevicts : call.evicts c = true) : ∃ victim ∈ c.keys, victim ≠ key ∧
      (call.step c).keys = c.keys.erase victim ++ [key] := by
  obtain ⟨_, hsame, hmem, hfull⟩ := (evicts_iff h call).1 hevicts
  obtain rfl := Option.some.inj (hput.symm.trans hsame)
  cases step_outcome h call with
  | cleared hclear _ _ => simp [evicts, hclear] at hevicts
  | untouched _ hnone _ _ =>
    rw [hput] at hnone
    cases hnone
  | filed _ _ hsome hinto =>
    obtain rfl := Option.some.inj (hput.symm.trans hsome)
    cases hinto with
    | replaced hkey _ _ => exact absurd hkey hmem
    | added _ hroom _ _ => exact absurd hfull (Nat.ne_of_lt hroom)
    | exchanged victim _ _ hvictim hkeys _ =>
      exact ⟨victim, hvictim, fun heq => hmem (heq ▸ hvictim), hkeys⟩

theorem step_size (h : c.WellKept) (hclear : call.isClear = false) :
    (call.step c).size + (call.evicts c).toNat = c.size + (call.adds c).toNat := by
  have hevictions := step_evictions h call
  cases step_outcome h call with
  | cleared htrue _ _ =>
    rw [hclear] at htrue
    cases htrue
  | untouched _ hnone hkeys hsame =>
    have hsize := (Cache.length_keys (call.step c)).symm
    rw [hkeys, Cache.length_keys] at hsize
    have hadds : call.adds c = false := by rw [adds, hnone]; rfl
    rw [hadds, Bool.toNat_false]
    omega
  | filed key _ hsome hput =>
    have hsize := hput.size
    have hadds : (call.adds c).toNat = if key ∈ c.keys then 0 else 1 := by
      rw [adds, hsome]
      by_cases hmem : key ∈ c.keys <;> simp [hmem]
    rw [hadds]
    omega

theorem reached_append (past recent : List CacheCall) (c : Cache) :
    reached (past ++ recent) c = reached recent (reached past c) := by
  induction past generalizing c with
  | nil => rfl
  | cons call past ih => exact ih (call.step c)

theorem reached_capacity (calls : List CacheCall) (c : Cache) :
    (reached calls c).capacity = c.capacity := by
  induction calls generalizing c with
  | nil => rfl
  | cons call calls ih => exact (ih (call.step c)).trans (step_capacity call c)

theorem reached_wellKept (h : c.WellKept) (calls : List CacheCall) :
    (reached calls c).WellKept := by
  induction calls generalizing c with
  | nil => exact h
  | cons call calls ih => exact ih (step_wellKept h call)

theorem reached_lookups (calls : List CacheCall) (c : Cache) :
    (reached calls c).hits + (reached calls c).misses =
      c.hits + c.misses + calls.countP looksUp := by
  induction calls generalizing c with
  | nil => rfl
  | cons call calls ih =>
    have hstep := step_lookups call c
    have hcount : (call :: calls).countP looksUp = calls.countP looksUp + call.looksUp.toNat := by
      rw [List.countP_cons]
      cases call.looksUp <;> rfl
    rw [reached, ih, hcount]
    omega

theorem reached_evictions (h : c.WellKept) (calls : List CacheCall) :
    (reached calls c).evictions = c.evictions + countAlong evicts calls c := by
  induction calls generalizing c with
  | nil => rfl
  | cons call calls ih =>
    have hstep := step_evictions h call
    have hrest := ih (step_wellKept h call)
    rw [reached, countAlong]
    omega

/-- Without a clearing, the entries grow by the keys added and shrink by those given up. -/
theorem reached_size (h : c.WellKept) (hclear : ∀ call ∈ calls, call.isClear = false) :
    (reached calls c).size + countAlong evicts calls c = c.size + countAlong adds calls c := by
  induction calls generalizing c with
  | nil => rfl
  | cons call calls ih =>
    have hstep := step_size h (hclear call List.mem_cons_self)
    have hrest := ih (step_wellKept h call) fun k hk => hclear k (List.mem_cons_of_mem _ hk)
    rw [reached, countAlong, countAlong]
    omega

/-- Nothing is kept before the first call and right behind a clearing. -/
theorem size_fresh {capacity : ℕ} (hfresh : ∀ call ∈ past.getLast?, call.isClear = true) :
    (reached past (.ofCapacity capacity)).size = 0 := by
  induction past using List.reverseRecOn with
  | nil => rfl
  | append_singleton past call _ =>
    have hclear := hfresh call (by simp)
    rw [reached_append]
    cases call with
    | clear => rfl
    | get _ => cases hclear
    | put _ _ _ => cases hclear
    | parse _ _ _ _ _ _ => cases hclear

end CacheCall

open CacheCall in
/-- A cache never outgrows its room, which is for one statement at least, and it counts every
look-up and every entry given up. Since the last clearing it has gained an entry for every put under
a key that was not there and lost one for every entry given up. A call makes a key disappear exactly
if it puts a statement under a key that is not there and the cache is full; then it is one key and
another one, and that may be any. What was put is found under its key. -/
theorem cache_accounts (capacity : ℕ) (calls : List CacheCall) {c : Cache}
    (hc : c = reached calls (.ofCapacity capacity)) :
    c.size ≤ c.capacity ∧ c.capacity = max capacity 1 ∧ c.keys.Nodup ∧
      c.hits + c.misses = calls.countP looksUp ∧
      c.evictions = countAlong evicts calls (.ofCapacity capacity) ∧
      (∀ past recent, calls = past ++ recent →
        (∀ call ∈ past.getLast?, call.isClear = true) →
        (∀ call ∈ recent, call.isClear = false) →
        c.size + countAlong evicts recent (reached past (.ofCapacity capacity)) =
          countAlong adds recent (reached past (.ofCapacity capacity))) ∧
      (∀ call : CacheCall, call.evicts c = true ↔
        ∃ key, call.put? c = some key ∧ key ∉ c.keys ∧ c.size = c.capacity) ∧
      (∀ (call : CacheCall) key, call.put? c = some key → call.evicts c = true →
        ∃ victim ∈ c.keys, victim ≠ key ∧
          (call.step c).keys = c.keys.erase victim ++ [key]) ∧
      (∀ key s, key ∉ c.keys → c.size = c.capacity → ∀ victim ∈ c.keys,
        ∃ place, (c.put place key s).keys = c.keys.erase victim ++ [key]) ∧
      ∀ place key s, ((c.put place key s).get key).1 = some s := by
  have hempty := Cache.wellKept_ofCapacity capacity
  have hkept : c.WellKept := hc ▸ reached_wellKept hempty calls
  have hcapacity : c.capacity = max capacity 1 := hc ▸ reached_capacity calls _
  have hlookups := reached_lookups calls (.ofCapacity capacity)
  have hevictions := reached_evictions hempty calls
  rw [← hc] at hlookups hevictions
  refine ⟨hkept.size_le, hcapacity, hkept.distinct, by simpa [Cache.ofCapacity] using hlookups,
    by simpa [Cache.ofCapacity] using hevictions, ?_, evicts_iff hkept, ?_, ?_, ?_⟩
  · intro past recent hsplit hpast hrecent
    have hsize := reached_size (reached_wellKept hempty past) hrecent
    rwa [size_fresh hpast, ← reached_append, ← hsplit, ← hc, Nat.zero_add] at hsize
  · intro call key hput hevicts
    exact evicts_one hkept hput hevicts
  · intro key s hmem hfull victim hvictim
    exact hkept.exists_place hmem hfull hvictim s
  · exact fun place key s => Cache.get_put

open CacheCall in
/-- A cache with room for one statement is cleared once. Behind the clearing two texts are read, the
second takes the place of the first, and a further put takes the place of the second. -/
theorem cache_accounts_full : ∃ past recent key s c,
    c = reached (past ++ recent) (.ofCapacity 0) ∧
    past = [.put 0 ⟨.mysql, "A"⟩ s, .clear] ∧
    recent = [.parse true 0 .mysql ⟨[], none⟩ ⟨[]⟩ "COMMIT",
      .parse true 0 .mysql ⟨[], none⟩ ⟨[]⟩ "ROLLBACK", .get ⟨.mysql, "COMMIT"⟩] ∧
    c.size ≤ c.capacity ∧ c.hits + c.misses = 3 ∧ c.evictions = 1 ∧
    c.size + countAlong evicts recent (reached past (.ofCapacity 0)) = 2 ∧
    ∃ victim ∈ c.keys, victim ≠ key ∧ (c.put 0 key s).keys = c.keys.erase victim ++ [key] := by
  have hrun := cache_accounts 0 ([.put 0 ⟨.mysql, "A"⟩ (.transaction { kind := .tcl } .commit),
    .clear] ++ [.parse true 0 .mysql ⟨[], none⟩ ⟨[]⟩ "COMMIT",
      .parse true 0 .mysql ⟨[], none⟩ ⟨[]⟩ "ROLLBACK", .get ⟨.mysql, "COMMIT"⟩]) rfl
  obtain ⟨hsize, -, -, hlookups, hevictions, hsince, hevicts, hone, -, -⟩ := hrun
  refine ⟨_, _, ⟨.mysql, "A"⟩, _, _, rfl, rfl, rfl, hsize, hlookups, ?_, ?_, ?_⟩
  · exact hevictions.trans (by decide +kernel)
  · exact (hsince _ _ rfl (by simp [isClear]) (by simp [isClear])).trans (by decide +kernel)
  · exact hone (.put 0 _ _) _ rfl ((hevicts _).2 ⟨_, rfl, by decide +kernel, by decide +kernel⟩)

end SqlFront

import SqlFront.KeyedList
import SqlFront.Number.Binary64
import SqlFront.Reading.Basic

/-!
# The cache of statements

The same text with placeholders comes many times, so its statement is kept under the dialect and
the text. A full cache gives up an entry before it takes a new one. Which entry that is does not
matter to the answers, so whoever puts a statement also says the place of the entry to give up.
-/

set_option autoImplicit false

namespace SqlFront

structure CacheKey where
  dialect : Dialect
  text : String
deriving DecidableEq

structure Cache where
  capacity : Nat
  entries : List (CacheKey × Statement) := []
  -- Counters of 64 bits would differ from these only behind 2^64 look-ups.
  hits : Nat := 0
  misses : Nat := 0
  evictions : Nat := 0

namespace Cache

def defaultCapacity : Nat := 1024

def ofCapacity (capacity : Nat) : Cache := { capacity := max capacity 1 }

def size (c : Cache) : Nat := c.entries.length

def contains (c : Cache) (key : CacheKey) : Bool := (KeyedList.get? key c.entries).isSome

def isFull (c : Cache) : Bool := c.capacity ≤ c.size

def get (key : CacheKey) (c : Cache) : Option Statement × Cache :=
  match KeyedList.get? key c.entries with
  | some s => (some s, { c with hits := c.hits + 1 })
  | none => (none, { c with misses := c.misses + 1 })

def evict (place : Nat) (c : Cache) : Cache :=
  { c with entries := c.entries.eraseIdx (place % c.size), evictions := c.evictions + 1 }

def put (place : Nat) (key : CacheKey) (s : Statement) (c : Cache) : Cache :=
  let c := if !c.contains key && c.isFull then c.evict place else c
  { c with entries := KeyedList.put key s c.entries }

def clear (c : Cache) : Cache := { c with entries := [] }

def hitRate (c : Cache) : Binary64 :=
  if c.hits + c.misses = 0 then .zero false else .ofRatio false c.hits (c.hits + c.misses)

/-- The statement of a text. With `useCache` it comes from the cache if it is there, and what had to
be read is kept. -/
def parse (useCache : Bool) (place : Nat) (d : Dialect) (rule : ShardingRule) (catalog : Catalog)
    (sql : String) (c : Cache) : Except Fault Statement × Cache :=
  if useCache then
    match c.get ⟨d, sql⟩ with
    | (some s, c) => (.ok s, c)
    | (none, c) =>
      match SqlFront.parse d rule catalog sql with
      | .ok s => (.ok s, c.put place ⟨d, sql⟩ s)
      | .error f => (.error f, c)
  else (SqlFront.parse d rule catalog sql, c)

end Cache

end SqlFront

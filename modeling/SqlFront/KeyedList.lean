/-!
# Keyed lists

A list of keys with values that keeps the order in which the keys came. A key that comes again
gets the new value at its old position.
-/

set_option autoImplicit false

namespace SqlFront.KeyedList

variable {κ α : Type} [DecidableEq κ]

def put (key : κ) (value : α) : List (κ × α) → List (κ × α)
  | [] => [(key, value)]
  | (k, v) :: rest => if k = key then (k, value) :: rest else (k, v) :: put key value rest

def get? (key : κ) : List (κ × α) → Option α
  | [] => none
  | (k, v) :: rest => if k = key then some v else get? key rest

def ofPairs (pairs : List (κ × α)) : List (κ × α) :=
  pairs.foldl (fun l p => put p.1 p.2 l) []

theorem get?_put_self (key : κ) (value : α) (l : List (κ × α)) :
    get? key (put key value l) = some value := by
  induction l with
  | nil => simp [put, get?]
  | cons p rest ih =>
    obtain ⟨k, v⟩ := p
    by_cases h : k = key <;> simp [put, get?, h, ih]

theorem get?_put_of_ne {key other : κ} (h : other ≠ key) (value : α)
    (l : List (κ × α)) : get? other (put key value l) = get? other l := by
  induction l with
  | nil => simp [put, get?, h.symm]
  | cons p rest ih =>
    obtain ⟨k, v⟩ := p
    by_cases hk : k = key
    · subst hk
      simp [put, get?, h.symm]
    · simp [put, get?, hk, ih]

end SqlFront.KeyedList

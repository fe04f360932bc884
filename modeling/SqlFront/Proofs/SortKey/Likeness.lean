import Mathlib
import SqlFront.Statement.Query

/-!
# Likeness of sort keys

Two sort keys with one direction are alike when they have a feature in common: the label, the
qualified name or the position. This is no equivalence, since one key may be like a second in its
label and like a third in its name. It is one along a single feature, and for keys as readers build
them nothing else carries over from two pairs to the third.
-/

set_option autoImplicit false

namespace SqlFront

namespace OrderItem

variable {x y z : OrderItem}

/-! ## Keys as readers build them -/

/-- The keys that are built by a name, by a name with an owner or by a position, whatever alias is
set afterwards. -/
inductive Built : OrderItem → Prop
  | ofName (name : String) (direction nulls : Direction) (alias? : Option String) :
      Built (ofName name direction nulls alias?)
  | ofOwner (owner name : String) (direction nulls : Direction) (alias? : Option String) :
      Built (ofOwner owner name direction nulls alias?)
  | ofIndex (index : ℕ) (direction nulls : Direction) : Built (ofIndex index direction nulls)
  | aliased {x : OrderItem} (h : Built x) (alias? : Option String) :
      Built { x with alias? := alias? }

theorem Built.name_or_index (h : Built x) :
    (∃ name, x.name? = some name ∧ x.index? = none) ∨
      (∃ index, x.name? = none ∧ x.index? = some index) := by
  induction h with
  | ofName name => exact Or.inl ⟨name, rfl, rfl⟩
  | ofOwner _ name => exact Or.inl ⟨name, rfl, rfl⟩
  | ofIndex index => exact Or.inr ⟨index, rfl, rfl⟩
  | aliased _ _ ih => exact ih

/-! ## Features -/

inductive Feature
  | label | name | position
deriving DecidableEq

variable {k l m : Feature}

def feature? (x : OrderItem) : Feature → Option (List Char ⊕ ℕ)
  | .label => x.label?.map fun label => .inl (foldCase label)
  | .name => x.qualifiedName?.map fun name => .inl (foldCase name)
  | .position => x.index?.map .inr

def LikeIn (k : Feature) (x y : OrderItem) : Prop :=
  ∃ a, x.feature? k = some a ∧ y.feature? k = some a

theorem LikeIn.symm (h : LikeIn k x y) : LikeIn k y x := by
  obtain ⟨a, hx, hy⟩ := h
  exact ⟨a, hy, hx⟩

theorem LikeIn.trans (h : LikeIn k x y) (h' : LikeIn k y z) : LikeIn k x z := by
  obtain ⟨a, hx, hy⟩ := h
  obtain ⟨b, hy', hz⟩ := h'
  obtain rfl : a = b := Option.some.inj (hy.symm.trans hy')
  exact ⟨a, hx, hz⟩

theorem sharedName_iff {a? b? : Option String} : sharedName a? b? = true ↔
    ∃ s : List Char ⊕ ℕ, a?.map (fun a => .inl (foldCase a)) = some s ∧
      b?.map (fun b => .inl (foldCase b)) = some s := by
  cases a? with
  | none => simp [sharedName]
  | some a =>
    cases b? with
    | none => simp [sharedName]
    | some b =>
      have hsame : sameName a b = true ↔ foldCase b = foldCase a := by rw [sameName_iff, eq_comm]
      simpa [sharedName] using hsame

theorem sortsLike_iff : x.sortsLike y = true ↔ x.direction = y.direction ∧ ∃ k, LikeIn k x y := by
  have hposition : (x.index?.isSome && x.index? == y.index?) = true ↔ LikeIn .position x y := by
    unfold LikeIn feature?
    cases x.index? with
    | none => simp
    | some i => cases y.index? <;> simp [@eq_comm _ i]
  have hlabel : sharedName x.label? y.label? = true ↔ LikeIn .label x y := sharedName_iff
  have hname : sharedName x.qualifiedName? y.qualifiedName? = true ↔ LikeIn .name x y :=
    sharedName_iff
  unfold sortsLike
  rw [Bool.and_eq_true, Bool.or_eq_true, Bool.or_eq_true, beq_iff_eq, hlabel, hname, hposition]
  refine and_congr_right fun _ => ⟨?_, ?_⟩
  · rintro ((h | h) | h)
    · exact ⟨.label, h⟩
    · exact ⟨.name, h⟩
    · exact ⟨.position, h⟩
  · rintro ⟨k, h⟩
    cases k with
    | label => exact Or.inl (Or.inl h)
    | name => exact Or.inl (Or.inr h)
    | position => exact Or.inr h

/-- A key that has been built is like itself in its name or in its position. -/
theorem Built.likeIn_self (h : Built x) : ∃ k, LikeIn k x x := by
  rcases h.name_or_index with ⟨name, hname, -⟩ | ⟨index, -, hindex⟩
  · obtain ⟨q, hq⟩ : ∃ q, x.qualifiedName? = some q := ⟨_, by rw [qualifiedName?, hname]; rfl⟩
    exact ⟨.name, .inl (foldCase q), by simp [feature?, hq]⟩
  · exact ⟨.position, .inr index, by simp [feature?, hindex]⟩

theorem Built.feature_unique (h : Built x) (hk : k ≠ .label) (hl : l ≠ .label)
    (hxk : (x.feature? k).isSome) (hxl : (x.feature? l).isSome) : k = l := by
  rcases h.name_or_index with ⟨_, -, hindex⟩ | ⟨_, hname, -⟩
  · have honly : ∀ m, m ≠ .label → (x.feature? m).isSome → m = .name := by
      intro m hm hxm
      cases m with
      | label => exact (hm rfl).elim
      | name => rfl
      | position => simp [feature?, hindex] at hxm
    exact (honly k hk hxk).trans (honly l hl hxl).symm
  · have honly : ∀ m, m ≠ .label → (x.feature? m).isSome → m = .position := by
      intro m hm hxm
      cases m with
      | label => exact (hm rfl).elim
      | name => simp [feature?, qualifiedName?, hname] at hxm
      | position => rfl
    exact (honly k hk hxk).trans (honly l hl hxl).symm

theorem LikeIn.left (h : LikeIn k x y) : (x.feature? k).isSome := by
  obtain ⟨a, hx, -⟩ := h
  rw [hx]
  rfl

/-- Among keys that have been built, three that are pairwise alike are so in at most two features:
of three features two are the name and the position, which no key has both. -/
theorem Built.two_of_three (hx : Built x) (hy : Built y) (hz : Built z)
    (hxy : LikeIn k x y) (hyz : LikeIn l y z) (hxz : LikeIn m x z) :
    k = l ∨ k = m ∨ l = m := by
  by_cases hk : k = .label
  · by_cases hl : l = .label
    · exact Or.inl (hk.trans hl.symm)
    by_cases hm : m = .label
    · exact Or.inr (Or.inl (hk.trans hm.symm))
    exact Or.inr (Or.inr (hz.feature_unique hl hm hyz.symm.left hxz.symm.left))
  by_cases hl : l = .label
  · by_cases hm : m = .label
    · exact Or.inr (Or.inr (hl.trans hm.symm))
    exact Or.inr (Or.inl (hx.feature_unique hk hm hxy.left hxz.left))
  exact Or.inl (hy.feature_unique hk hl hxy.symm.left hyz.left)

end OrderItem

open OrderItem

/-- Among sort keys as readers build them likeness is reflexive and symmetric, and it carries over
from two pairs to the third exactly if both pairs are alike in one feature. -/
theorem sort_keys_alike {x y z : OrderItem} (hx : Built x) (hy : Built y) (hz : Built z) :
    x.sortsLike x = true ∧
    (x.sortsLike y = true → y.sortsLike x = true) ∧
    (x.sortsLike y = true → y.sortsLike z = true →
      (x.sortsLike z = true ↔ ∃ k, LikeIn k x y ∧ LikeIn k y z)) := by
  refine ⟨sortsLike_iff.2 ⟨rfl, hx.likeIn_self⟩, ?_, ?_⟩
  · intro h
    obtain ⟨hdirection, k, hk⟩ := sortsLike_iff.1 h
    exact sortsLike_iff.2 ⟨hdirection.symm, k, hk.symm⟩
  · intro hxy hyz
    obtain ⟨hdxy, k, hk⟩ := sortsLike_iff.1 hxy
    obtain ⟨hdyz, l, hl⟩ := sortsLike_iff.1 hyz
    constructor
    · intro hxz
      obtain ⟨-, m, hm⟩ := sortsLike_iff.1 hxz
      rcases hx.two_of_three hy hz hk hl hm with rfl | rfl | rfl
      · exact ⟨k, hk, hl⟩
      · exact ⟨k, hk, hk.symm.trans hm⟩
      · exact ⟨l, hm.trans hl.symm, hl⟩
    · rintro ⟨k, hk, hl⟩
      exact sortsLike_iff.2 ⟨hdxy.trans hdyz, k, hk.trans hl⟩

/-- Of three keys the second is like the first in its label and like the third in its name, so that
these two are not alike. -/
theorem sort_keys_alike_apart :
    Built (ofName "id" .ascending .ascending (some "a")) ∧
    Built (ofName "A" .ascending .descending none) ∧
    Built (ofName "a" .ascending .ascending (some "b")) ∧
    (ofName "id" .ascending .ascending (some "a")).sortsLike
      (ofName "A" .ascending .descending none) = true ∧
    (ofName "A" .ascending .descending none).sortsLike
      (ofName "a" .ascending .ascending (some "b")) = true ∧
    ¬∃ k, LikeIn k (ofName "id" .ascending .ascending (some "a"))
        (ofName "A" .ascending .descending none) ∧
      LikeIn k (ofName "A" .ascending .descending none)
        (ofName "a" .ascending .ascending (some "b")) := by
  have hx : Built (ofName "id" .ascending .ascending (some "a")) := .ofName _ _ _ _
  have hy : Built (ofName "A" .ascending .descending none) := .ofName _ _ _ _
  have hz : Built (ofName "a" .ascending .ascending (some "b")) := .ofName _ _ _ _
  have hxy : (ofName "id" .ascending .ascending (some "a")).sortsLike
      (ofName "A" .ascending .descending none) = true := by decide
  have hyz : (ofName "A" .ascending .descending none).sortsLike
      (ofName "a" .ascending .ascending (some "b")) = true := by decide
  refine ⟨hx, hy, hz, hxy, hyz, ?_⟩
  rw [← (sort_keys_alike hx hy hz).2.2 hxy hyz]
  decide

/-- Likeness is not transitive. -/
theorem likeness_not_transitive : ∃ x y z, Built x ∧ Built y ∧ Built z ∧ x.sortsLike y = true ∧
    y.sortsLike z = true ∧ x.sortsLike z = false :=
  ⟨ofName "id" .ascending .ascending (some "a"), ofName "a" .ascending .ascending none,
    ofName "a" .ascending .ascending (some "b"), .ofName _ _ _ _, .ofName _ _ _ _, .ofName _ _ _ _,
    by decide, by decide, by decide⟩

end SqlFront

import Mathlib
import SqlFront.Statement.Findings

/-!
# Sorting edits

Edits are sorted by their places, and the edits of one place keep their order. These two properties
leave one list only, so sorting a part of the edits beforehand changes nothing.
-/

set_option autoImplicit false

namespace SqlFront

namespace Edit

variable {es fs : List Edit} {e : Edit}

def Ordered (es : List Edit) : Prop := es.Pairwise fun a b => a.start ≤ b.start

def at_ (es : List Edit) (place : ℕ) : List Edit := es.filter fun e => e.start = place

structure StableSort (es fs : List Edit) : Prop where
  ordered : Ordered fs
  stable : ∀ place, at_ fs place = at_ es place

theorem at_append (place : ℕ) : at_ (es ++ fs) place = at_ es place ++ at_ fs place :=
  List.filter_append ..

theorem at_cons (place : ℕ) :
    at_ (e :: es) place = if e.start = place then e :: at_ es place else at_ es place := by
  simp [at_, List.filter_cons]

theorem mem_iff_at : e ∈ es ↔ e ∈ at_ es e.start := by simp [at_]

theorem mem_iff_of_at (h : ∀ place, at_ es place = at_ fs place) : e ∈ es ↔ e ∈ fs := by
  rw [mem_iff_at, h, ← mem_iff_at]

/-- There is only one ordered list with the same edits at every place. -/
theorem Ordered.unique (hes : Ordered es) (hfs : Ordered fs)
    (h : ∀ place, at_ es place = at_ fs place) : es = fs := by
  induction es generalizing fs with
  | nil =>
    cases fs with
    | nil => rfl
    | cons f fs => simpa using (mem_iff_of_at (e := f) h).2 List.mem_cons_self
  | cons e es ih =>
    cases fs with
    | nil => simpa using (mem_iff_of_at (e := e) h).1 List.mem_cons_self
    | cons f fs =>
      obtain ⟨hle, hrestE⟩ := List.pairwise_cons.1 hes
      obtain ⟨hle', hrestF⟩ := List.pairwise_cons.1 hfs
      -- The first edits have the least place of their lists, so they stand at the same place.
      have hstart : e.start = f.start := by
        apply Nat.le_antisymm
        · rcases List.mem_cons.1 ((mem_iff_of_at h).2 List.mem_cons_self) with rfl | hf
          · exact le_rfl
          · exact hle f hf
        · rcases List.mem_cons.1 ((mem_iff_of_at h).1 List.mem_cons_self) with rfl | he
          · exact le_rfl
          · exact hle' e he
      have hfirst := h e.start
      rw [at_cons, at_cons, if_pos rfl, if_pos hstart.symm] at hfirst
      obtain rfl : e = f := (List.cons.inj hfirst).1
      have hrest : ∀ place, at_ es place = at_ fs place := by
        intro place
        have hplace := h place
        rw [at_cons, at_cons] at hplace
        split at hplace
        · exact (List.cons.inj hplace).2
        · exact hplace
      rw [ih hrestE hrestF hrest]

theorem StableSort.unique {gs : List Edit} (hf : StableSort es fs) (hg : StableSort es gs) :
    fs = gs :=
  hf.ordered.unique hg.ordered fun place => (hf.stable place).trans (hg.stable place).symm

theorem le_trans_start (a b c : Edit) (hab : decide (a.start ≤ b.start) = true)
    (hbc : decide (b.start ≤ c.start) = true) : decide (a.start ≤ c.start) = true := by
  simp only [decide_eq_true_eq] at *
  exact hab.trans hbc

theorem le_total_start (a b : Edit) :
    (decide (a.start ≤ b.start) || decide (b.start ≤ a.start)) = true := by
  simpa using Nat.le_total a.start b.start

theorem sorted_ordered (es : List Edit) : Ordered (sorted es) := by
  have h := List.pairwise_mergeSort le_trans_start le_total_start es
  exact h.imp fun hab => of_decide_eq_true hab

theorem sorted_stable (es : List Edit) : StableSort es (sorted es) := by
  refine ⟨sorted_ordered es, fun place => ?_⟩
  -- The edits of one place are an ordered sublist, which sorting keeps.
  have hsub : (at_ es place).Sublist (sorted es) := by
    apply List.sublist_mergeSort le_trans_start le_total_start
    · refine List.pairwise_of_forall_mem_list fun a ha b hb => ?_
      simp only [at_, List.mem_filter, decide_eq_true_eq] at ha hb
      simp [ha.2, hb.2]
    · exact List.filter_sublist
  have hat : (at_ es place).Sublist (at_ (sorted es) place) := by
    have h := hsub.filter fun e => e.start = place
    rwa [show (at_ es place).filter (fun e => e.start = place) = at_ es place by
      simp [at_, List.filter_filter]] at h
  have hperm : (sorted es).Perm es := List.mergeSort_perm es _
  exact (hat.eq_of_length (hperm.filter _).length_eq.symm).symm

theorem StableSort.eq_sorted (h : StableSort es fs) : fs = sorted es := h.unique (sorted_stable es)

/-- Nothing is lost or doubled. -/
theorem StableSort.perm (h : StableSort es fs) : fs.Perm es :=
  h.eq_sorted ▸ List.mergeSort_perm es _

theorem sorted_append_sorted : sorted (sorted es ++ fs) = sorted (es ++ fs) := by
  refine (sorted_stable _).unique ⟨sorted_ordered _, fun place => ?_⟩
  rw [(sorted_stable _).stable, at_append, at_append, (sorted_stable _).stable]

end Edit

end SqlFront

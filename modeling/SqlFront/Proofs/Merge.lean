import Mathlib
import SqlFront.Proofs.Progress.Basic
import SqlFront.Statement.Derived
import SqlFront.Statement.Merge

/-!
# What merging and deriving keep

A merged query has nothing that no query of its chain has. Derived columns add edits that are none
of table names, and change no other finding.
-/

set_option autoImplicit false

namespace SqlFront

variable {catalog : Catalog}

/-! ## Derived columns -/

def Findings.Extends (f g : Findings) : Prop :=
  ∃ es : List Edit, (∀ e ∈ es, e.tableName? = none) ∧ g = { f with edits := f.edits ++ es }

theorem Findings.Extends.refl (f : Findings) : f.Extends f :=
  ⟨[], fun _ h => by simp at h, by simp⟩

theorem Findings.Extends.addEdit {f g : Findings} {e : Edit} (h : f.Extends g)
    (he : e.tableName? = none) : f.Extends (g.addEdit e) := by
  obtain ⟨es, hes, rfl⟩ := h
  refine ⟨es ++ [e], fun x hx => ?_, by simp [Findings.addEdit]⟩
  rcases List.mem_append.1 hx with hx | hx
  · exact hes x hx
  · exact List.mem_singleton.1 hx ▸ he

theorem Findings.Extends.conditions {f g : Findings} (h : f.Extends g) :
    g.conditions = f.conditions := by
  obtain ⟨es, -, rfl⟩ := h
  rfl

theorem Findings.Extends.tables {f g : Findings} (h : f.Extends g) : g.tables = f.tables := by
  obtain ⟨es, -, rfl⟩ := h
  rfl

theorem Findings.Extends.placeholders {f g : Findings} (h : f.Extends g) :
    g.placeholders = f.placeholders := by
  obtain ⟨es, -, rfl⟩ := h
  rfl

theorem Findings.Extends.mem_edits {f g : Findings} {e : Edit} (h : f.Extends g)
    (he : e ∈ g.edits) (ht : e.tableName? ≠ none) : e ∈ f.edits := by
  obtain ⟨es, hes, rfl⟩ := h
  rcases List.mem_append.1 he with he | he
  · exact he
  · exact (ht (hes e he)).elim

namespace Query

theorem orderAsGrouped_extends {f : Findings} {q : Query} (h : f.Extends q.findings) :
    f.Extends q.orderAsGrouped.findings := by
  unfold orderAsGrouped
  split
  · exact h
  · exact h.addEdit rfl

theorem derive_extends (catalog : Catalog) (q : Query) :
    q.findings.Extends (q.derive catalog).findings := by
  unfold derive
  split
  · exact .refl _
  · refine orderAsGrouped_extends ?_
    simp only
    split
    · exact .refl _
    · exact (Findings.Extends.refl _).addEdit rfl

theorem orderAsGrouped_limit (q : Query) : q.orderAsGrouped.limit? = q.limit? := by
  unfold orderAsGrouped
  split <;> rfl

theorem derive_limit (catalog : Catalog) (q : Query) : (q.derive catalog).limit? = q.limit? := by
  unfold derive
  split
  · rfl
  · rw [orderAsGrouped_limit]
    split <;> rfl

/-! ## Merging -/

/-- Whatever comes into a merged query from the two that are merged was in one of the chain. -/
theorem mem_mergeChain {α : Type} {a : α} (part : Query → List α)
    (hpart : ∀ q r : Query, a ∈ part (q.absorb r) → a ∈ part r ∨ a ∈ part q) {q : Query}
    {inner : List Query} (h : a ∈ part (q.mergeChain inner)) : ∃ r ∈ q :: inner, a ∈ part r := by
  induction inner generalizing q with
  | nil => exact ⟨q, List.mem_cons_self, h⟩
  | cons r inner ih =>
    rcases hpart q (r.mergeChain inner) h with h | h
    · obtain ⟨r', hr', ha⟩ := ih h
      exact ⟨r', List.mem_cons_of_mem _ hr', ha⟩
    · exact ⟨q, List.mem_cons_self, h⟩

theorem mem_mergeChain_edits {e : Edit} {q : Query} {inner : List Query}
    (h : e ∈ (q.mergeChain inner).findings.edits) : ∃ r ∈ q :: inner, e ∈ r.findings.edits := by
  refine mem_mergeChain (fun q => q.findings.edits) (fun q r h => ?_) h
  simpa [absorb, Findings.absorb, Edit.sorted] using h

theorem mem_mergeChain_conditions {x : Condition} {q : Query} {inner : List Query}
    (h : x ∈ (q.mergeChain inner).findings.conditions.toList) :
    ∃ r ∈ q :: inner, x ∈ r.findings.conditions.toList := by
  refine mem_mergeChain (fun q => q.findings.conditions.toList) (fun q r h => ?_) h
  simpa only [absorb, Findings.absorb, Conditions.merge, Conditions.toList, List.flatMap_append,
    List.mem_append] using h

theorem mergeChain_limit {Q : RowLimit → Prop} (hor : ∀ {l m : RowLimit}, Q l → Q m → Q (l.orElse m))
    {q : Query} {inner : List Query} (h : ∀ r ∈ q :: inner, ∀ l, r.limit? = some l → Q l) :
    ∀ l, (q.mergeChain inner).limit? = some l → Q l := by
  induction inner generalizing q with
  | nil => exact h q List.mem_cons_self
  | cons r inner ih =>
    have hinner := ih fun r' hr' => h r' (List.mem_cons_of_mem _ hr')
    have houter := h q List.mem_cons_self
    intro l hl
    simp only [mergeChain, absorb] at hl
    cases hq : q.limit? with
    | none =>
      rw [hq] at hl
      exact hinner l (by simpa [absorbLimit] using hl)
    | some m =>
      cases hr : (r.mergeChain inner).limit? with
      | none =>
        rw [hq, hr] at hl
        exact houter l (hq.trans (by simpa [absorbLimit] using hl))
      | some m' =>
        rw [hq, hr] at hl
        obtain rfl := Option.some.inj (by simpa [absorbLimit] using hl)
        exact hor (hinner m' hr) (houter m hq)

theorem mergeChain_placeholders {q : Query} {inner : List Query}
    (h : ∀ r ∈ inner, r.findings.placeholders ≤ q.findings.placeholders) :
    (q.mergeChain inner).findings.placeholders = q.findings.placeholders := by
  have bound : ∀ (inner : List Query) (r : Query) (n : ℕ),
      (∀ r' ∈ r :: inner, r'.findings.placeholders ≤ n) →
      (r.mergeChain inner).findings.placeholders ≤ n := by
    intro inner
    induction inner with
    | nil => exact fun r n h => h r List.mem_cons_self
    | cons r' inner ih =>
      intro r n h
      exact max_le (ih r' n fun x hx => h x (List.mem_cons_of_mem _ hx)) (h r List.mem_cons_self)
  cases inner with
  | nil => rfl
  | cons r inner => exact max_eq_right (bound inner r _ h)

end Query

end SqlFront

import Mathlib
import SqlFront.Statement.Table

/-!
# Lists of table references

The names of a table list are the names of its references, each once. There is one of them exactly
if there is a reference and all references have the same name.
-/

set_option autoImplicit false

namespace SqlFront

theorem sameName_trans {a b c : String} (hab : sameName a b = true) (hbc : sameName b c = true) :
    sameName a c = true := by
  rw [sameName_iff] at *
  exact hab.trans hbc

namespace Tables

/-! ## References to one table -/

variable {ts : Tables} {t : Table} {a b n : String} {names : List String}

def HasName (names : List String) (n : String) : Prop := ∃ a ∈ names, sameName a n = true

theorem containsName_iff :
    ts.containsName n = true ↔ HasName (ts.entries.map Table.name) n := by
  simp [containsName, HasName]

theorem containsName_add :
    (ts.add t).containsName n = true ↔ ts.containsName n = true ∨ sameName t.name n = true := by
  unfold add
  split
  · next h =>
    constructor
    · exact Or.inl
    · rintro (h' | h')
      · exact h'
      · obtain ⟨u, hu, hsame⟩ := List.any_eq_true.1 h
        simp only [Table.same, Bool.and_eq_true] at hsame
        exact List.any_eq_true.2 ⟨u, hu, sameName_trans hsame.1 h'⟩
  · simp [containsName, List.any_append]

theorem hasName_addName : HasName (addName names a) n ↔ HasName names n ∨ sameName a n = true := by
  unfold addName
  split
  · next h =>
    constructor
    · exact Or.inl
    · rintro (h' | h')
      · exact h'
      · obtain ⟨b, hb, hsame⟩ := List.any_eq_true.1 h
        exact ⟨b, hb, sameName_trans hsame h'⟩
  · simp [HasName, or_and_right, exists_or]

theorem hasName_foldl (more : List String) :
    HasName (more.foldl addName names) n ↔ HasName names n ∨ HasName more n := by
  induction more generalizing names with
  | nil => simp [HasName]
  | cons a more ih =>
    rw [List.foldl_cons, ih, hasName_addName, or_assoc]
    simp [HasName]

theorem pairwise_addName (h : names.Pairwise fun a b => ¬sameName a b = true) :
    (addName names a).Pairwise fun a b => ¬sameName a b = true := by
  unfold addName
  split
  · exact h
  · next hnew =>
    refine List.pairwise_append.2 ⟨h, List.pairwise_singleton _ _, fun b hb c hc hsame => ?_⟩
    rw [List.mem_singleton.1 hc] at hsame
    exact hnew (List.any_eq_true.2 ⟨b, hb, hsame⟩)

theorem pairwise_foldl (more : List String)
    (h : names.Pairwise fun a b => ¬sameName a b = true) :
    (more.foldl addName names).Pairwise fun a b => ¬sameName a b = true := by
  induction more generalizing names with
  | nil => exact h
  | cons a more ih => exact ih (pairwise_addName h)

theorem isSingle_iff : ts.isSingle = true ↔ (∃ n, ts.containsName n = true) ∧
    ∀ a b, ts.containsName a = true → ts.containsName b = true → sameName a b = true := by
  have hname : ∀ n, ts.containsName n = true ↔ HasName ts.names n := by
    intro n
    rw [containsName_iff, names, hasName_foldl]
    simp [HasName]
  have hpairs : ts.names.Pairwise fun a b => ¬sameName a b = true := pairwise_foldl _ .nil
  simp only [hname]
  rw [isSingle, beq_iff_eq]
  constructor
  · intro h
    obtain ⟨c, hc⟩ := List.length_eq_one_iff.1 h
    simp only [hc, HasName, List.mem_singleton, exists_eq_left]
    refine ⟨⟨c, sameName_refl c⟩, fun a b ha hb => ?_⟩
    rw [sameName_comm] at ha
    exact sameName_trans ha hb
  · rintro ⟨⟨n, c, hc, -⟩, hall⟩
    match hnames : ts.names with
    | [] => simp [hnames] at hc
    | [_] => rfl
    | a :: b :: rest =>
      rw [hnames] at hpairs hall
      have hab : sameName a b = true :=
        hall a b ⟨a, by simp, sameName_refl a⟩ ⟨b, by simp, sameName_refl b⟩
      exact ((List.pairwise_cons.1 hpairs).1 b (by simp) hab).elim

end Tables

/-! ## References, each once

A list with each of its references once is what adding them one by one gives. -/

namespace Tables

variable {ts us : Tables} {t : Table} {more rest : List Table}

def Distinct (ts : Tables) : Prop := ts.entries.Pairwise fun a b => ¬a.same b = true

theorem Distinct.empty : Distinct empty := List.Pairwise.nil

theorem Distinct.add (h : ts.Distinct) : (ts.add t).Distinct := by
  unfold Tables.add
  split
  · exact h
  · next hnew =>
    refine List.pairwise_append.2 ⟨h, List.pairwise_singleton _ _, fun a ha b hb hsame => ?_⟩
    rw [List.mem_singleton.1 hb] at hsame
    exact hnew (List.any_eq_true.2 ⟨a, ha, hsame⟩)

theorem Distinct.extend (h : ts.Distinct) : (ts.extend us).Distinct := by
  obtain ⟨more⟩ := us
  unfold Tables.extend
  induction more generalizing ts with
  | nil => exact h
  | cons t more ih => exact ih h.add

theorem entries_prefix_extend : ts.entries <+: (ts.extend us).entries := by
  obtain ⟨more⟩ := us
  unfold extend
  induction more generalizing ts with
  | nil => exact List.prefix_rfl
  | cons t more ih =>
    have hadd : ts.entries <+: (ts.add t).entries := by
      unfold add
      split
      · exact List.prefix_rfl
      · exact List.prefix_append _ _
    exact hadd.trans ih

theorem extend_append : ts.extend ⟨more ++ rest⟩ = (ts.extend ⟨more⟩).extend ⟨rest⟩ :=
  List.foldl_append

theorem extend_of_distinct (h : Distinct ⟨ts.entries ++ more⟩) :
    ts.extend ⟨more⟩ = ⟨ts.entries ++ more⟩ := by
  unfold extend
  induction more generalizing ts with
  | nil => simp
  | cons t more ih =>
    have hnew : ts.add t = ⟨ts.entries ++ [t]⟩ := by
      unfold add
      rw [if_neg]
      intro hold
      obtain ⟨u, hu, hsame⟩ := List.any_eq_true.1 hold
      exact (List.pairwise_append.1 h).2.2 u hu t List.mem_cons_self hsame
    rw [List.foldl_cons, hnew, ih (by simpa [Distinct] using h)]
    simp

/-- Adding all references of a list and of more to the empty list is adding the others to the list
exactly if the list has each of its references once. -/
theorem extend_empty_iff :
    empty.extend ⟨ts.entries ++ more⟩ = ts.extend ⟨more⟩ ↔ ts.Distinct := by
  rw [extend_append]
  constructor
  · intro h
    have hall : (ts.extend ⟨more⟩).Distinct := h ▸ Distinct.empty.extend.extend
    exact List.Pairwise.sublist entries_prefix_extend.sublist hall
  · intro h
    have hall : empty.extend ⟨ts.entries⟩ = ts := extend_of_distinct h
    rw [hall]

end Tables

end SqlFront

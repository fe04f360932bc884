import SqlFront.Clause.TableReference
import SqlFront.Proofs.Insertion.Row

/-!
# Conditions of joins

A join condition is a list of comparisons with AND between them. They are read one by one. A left
operand that is not read to its end is followed by no comparison, so the text is refused; behind
such a right operand the reading of the whole clause ends.
-/

set_option autoImplicit false

namespace SqlFront

open SqlFront.Parser SqlFront.Clause

variable {d : Dialect} {w v : Workspace Findings} {t : Token} {ts us more : List Token}

/-! ## Up to an item -/

inductive Upto {α : Type} (P : α → Prop) : List α → α → Prop
  | first {a : α} {as : List α} : Upto P (a :: as) a
  | later {a b : α} {as : List α} : P b → Upto P as a → Upto P (b :: as) a

section Upto

variable {α : Type} {P : α → Prop} {a b : α} {as bs : List α}

theorem Upto.mem (h : Upto P as a) : a ∈ as := by
  induction h with
  | first => exact List.mem_cons_self
  | later _ _ ih => exact List.mem_cons_of_mem _ ih

theorem upto_cons : Upto P (b :: as) a ↔ a = b ∨ (P b ∧ Upto P as a) := by
  constructor
  · rintro (_ | ⟨hb, h⟩)
    · exact Or.inl rfl
    · exact Or.inr ⟨hb, h⟩
  · rintro (rfl | ⟨hb, h⟩)
    · exact .first
    · exact .later hb h

theorem upto_append : Upto P (as ++ bs) a ↔ Upto P as a ∨ ((∀ b ∈ as, P b) ∧ Upto P bs a) := by
  induction as with
  | nil =>
    have hnone : ¬Upto P [] a := fun h => nomatch h
    simp [hnone]
  | cons b as ih =>
    rw [List.cons_append, upto_cons, upto_cons, ih, List.forall_mem_cons]
    tauto

end Upto

/-! ## Operands of join conditions -/

def joinTypes (d : Dialect) : List TokenType := keywordTypes (joinWords ++ d.grammar.joins)

def joinStops (d : Dialect) : List TokenType := .keyword .AND :: joinTypes d ++ joinComparisons

def Apart (xs : List TokenType) (ts : List Token) : Prop :=
  ∀ us vs, ts = us ++ vs → Level vs → vs ≠ [] → frontType vs ∉ xs

structure IsJoinOperand (d : Dialect) (ts : List Token) : Prop where
  value : IsValue ts
  apart : Apart (joinStops d) ts

structure JoinTest where
  left : List Token
  right : List Token

namespace JoinTest

def IsRead (j : JoinTest) : Prop := Whole j.left ∧ Whole j.right

inductive Spells (d : Dialect) (j : JoinTest) : List Token → Prop
  | intro {o : Token} : IsJoinOperand d j.left → o.type ∈ joinComparisons →
      IsJoinOperand d j.right → Spells d j (j.left ++ o :: j.right)

end JoinTest

variable {j : JoinTest} {js : List JoinTest}

def joinTest : Parser Findings Unit := do
  let _ ← expression
  if !(← skipIf joinComparisons) then expectSymbol .equal
  let _ ← expression

def StuckInJoin (d : Dialect) (v : Workspace Findings) : Prop :=
  v.cursor.current.type ∉ .symbol .comma :: joinStops d

theorem Apart.stuck (h : Apart (joinStops d) ts) {taken rest : List Token}
    (hts : taken ++ rest = ts) (hl : Level rest) (hne : rest ≠ [])
    (hv : v.cursor.Passes (rest ++ us) more) : StuckInJoin d v := by
  have hapart := h taken rest hts.symm hl hne
  cases rest with
  | nil => exact (hne rfl).elim
  | cons t rest =>
    have htype : v.cursor.current.type = t.type := hv.type
    unfold StuckInJoin
    rw [htype, List.mem_cons, not_or]
    exact ⟨hl.front_ne.1, hapart⟩

theorem achieves_joinOperand (h : IsJoinOperand d ts) (hus : endsOperand (us ++ more) = true)
    (hw : w.cursor.Passes (ts ++ us) more) :
    Achieves w expression fun _ v => v.draft.tables = w.draft.tables ∧
      ((Whole ts ∧ v.cursor.Passes us more) ∨ (¬Whole ts ∧ StuckInJoin d v)) := by
  apply (achieves_read h.value.level h.value.complete h.value.ne_nil hus hw).mono
  rintro e v ⟨taken, rest, hsplit, ⟨hl, hp, hcount⟩, -, hwhole⟩
  refine ⟨hcount.tables, ?_⟩
  by_cases hrest : rest = []
  · rw [hrest] at hp
    exact Or.inl ⟨hwhole.1 hrest, hp⟩
  · exact Or.inr ⟨fun hw => hrest (hwhole.2 hw), h.apart.stuck hsplit hl hrest hp⟩

theorem endsOperand_of_comparison (ht : t.type ∈ joinComparisons) :
    endsOperand (t :: ts) = true := by
  have hplain : ∀ x ∈ joinComparisons, x ∉ operators ∧ x ≠ .symbol .leftParen ∧
      x ≠ .literal .int ∧ x ≠ .literal .float := by decide
  obtain ⟨hop, hleft, hint, hfloat⟩ := hplain _ ht
  exact endsOperand_of_type rfl hop hleft hint hfloat

theorem settles_joinTest (hs : j.Spells d ts) (hus : endsOperand (us ++ more) = true)
    (hw : w.cursor.Passes (ts ++ us) more) :
    Settles w joinTest (fun _ v => v.draft.tables = w.draft.tables ∧
      ((j.IsRead ∧ v.cursor.Passes us more) ∨ (¬j.IsRead ∧ StuckInJoin d v)))
      fun _ => ¬Whole j.left := by
  obtain @⟨o, hleft, ho, hright⟩ := hs
  rw [List.append_assoc, List.cons_append] at hw
  unfold joinTest
  apply (achieves_joinOperand hleft (endsOperand_of_comparison ho) hw).bind
  rintro _ v ⟨htables, ⟨hwhole, hv⟩ | ⟨hnot, hv⟩⟩
  · apply settles_skipIf hv ho
    intro v₁ h₁
    have hskipped : (!true) = false := rfl
    rw [hskipped, if_neg (by simp)]
    apply (achieves_joinOperand hright hus h₁.passes).bind
    rintro _ v₂ ⟨htables₂, hend⟩
    refine Settles.pure ⟨by rw [htables₂, h₁.draft, htables], ?_⟩
    rcases hend with ⟨hr, hv₂⟩ | ⟨hr, hv₂⟩
    · exact Or.inl ⟨⟨hwhole, hr⟩, hv₂⟩
    · exact Or.inr ⟨fun h => hr h.2, hv₂⟩
  · have hcomparison : v.cursor.current.type ∉ joinComparisons := by
      intro h
      apply hv
      simp [joinStops, h]
    apply settles_notAt hcomparison
    have hmissing : (!false) = true := rfl
    rw [hmissing, if_pos rfl]
    apply settles_unexpected
    · rw [← Bool.not_eq_true, Cursor.isAt_iff]
      intro h
      apply hcomparison
      simp [h, joinComparisons]
    · exact fun _ _ => hnot

def Halts (js : List JoinTest) : Prop := ∃ j, Upto JoinTest.IsRead js j ∧ ¬Whole j.left

theorem settles_joinTests (hs : Joined (.keyword .AND) (JoinTest.Spells d) js ts)
    (hus : endsOperand (us ++ more) = true) (hand : frontType (us ++ more) ≠ .keyword .AND)
    {k : ℕ} (hk : js.length ≤ k) {bs : List Unit} (hw : w.cursor.Passes (ts ++ us) more) :
    Settles w (repeatFor (listRound (.keyword .AND) joinTest) k bs)
      (fun _ v => v.draft.tables = w.draft.tables ∧
        (((∀ j ∈ js, j.IsRead) ∧ v.cursor.Passes us more) ∨
          ((¬∀ j ∈ js, j.IsRead) ∧ StuckInJoin d v)))
      fun _ => Halts js := by
  have hstuck : ∀ {v : Workspace Findings}, StuckInJoin d v →
      v.cursor.current.type ∉ [TokenType.keyword .AND] := by
    intro v hv h
    apply hv
    simp [joinStops, List.mem_singleton.1 h]
  -- By induction on the comparisons. Inside of an operand no AND stands in front, so the list ends
  -- there.
  induction hs generalizing k bs w with
  | @single j ts hj =>
    obtain ⟨k, rfl⟩ := Nat.exists_eq_add_of_le' hk
    rw [List.length_singleton, repeatFor_listRound]
    apply Settles.bind ((settles_joinTest hj hus hw).faults fun _ hf => ⟨j, .first, hf⟩)
    rintro _ v ⟨htables, hend⟩
    have hat : v.cursor.current.type ∉ [TokenType.keyword .AND] := by
      rcases hend with ⟨-, hv⟩ | ⟨-, hv⟩
      · rw [hv.type]
        simpa using hand
      · exact hstuck hv
    apply settles_notAt hat
    exact Settles.pure ⟨htables, by simpa using hend⟩
  | @cons j js s ts rest hj hsep hjs ih =>
    obtain ⟨k, rfl⟩ := Nat.exists_eq_add_of_le' hk
    have hsign : endsOperand (s :: (rest ++ us) ++ more) = true := endsOperand_keyword hsep
    rw [List.length_cons, ← Nat.add_assoc, repeatFor_listRound]
    rw [List.append_assoc, List.cons_append] at hw
    apply Settles.bind ((settles_joinTest hj hsign hw).faults fun _ hf => ⟨j, .first, hf⟩)
    rintro _ v ⟨htables, ⟨hread, hv⟩ | ⟨hnot, hv⟩⟩
    · apply settles_skipIf hv (by simp [hsep])
      intro v₁ h₁
      rw [if_pos rfl]
      have hrest := @ih v₁ (k + js.length) (by omega) (bs ++ [()]) h₁.passes
      apply (hrest.mono ?_).faults
      · rintro f ⟨i, hi, hleft⟩
        exact ⟨i, .later hread hi, hleft⟩
      · rintro _ y ⟨hy, hend⟩
        refine ⟨by rw [hy, h₁.draft, htables], ?_⟩
        simpa [hread] using hend
    · apply settles_notAt (hstuck hv)
      refine Settles.pure ⟨htables, Or.inr ⟨fun h => hnot (h j (by simp)), hv⟩⟩

/-! ## The condition -/

inductive SpellsCondition (d : Dialect) : List JoinTest → List Token → Prop
  | none : SpellsCondition d [] []
  | columns {u l : Token} {cs : List Token} : u.type = .keyword .USING →
      l.type = .symbol .leftParen → Closes 0 cs → SpellsCondition d [] (u :: l :: cs)
  | on {o : Token} {js : List JoinTest} {ts : List Token} : o.type = .keyword .ON →
      Joined (.keyword .AND) (JoinTest.Spells d) js ts → SpellsCondition d js (o :: ts)

theorem joinCondition_eq : joinCondition = (do
    if ← skipKeyword .ON then
      discard <| separated [.keyword .AND] joinTest
    else if ← skipKeyword .USING then
      let _ ← skipParentheses) := rfl

theorem settles_joinCondition (hs : SpellsCondition d js ts)
    (hus : endsOperand (us ++ more) = true)
    (hstop : frontType (us ++ more) ∉ keywordTypes [.ON, .USING, .AND])
    (hw : w.cursor.Passes (ts ++ us) more) :
    Settles w joinCondition (fun _ v => v.draft.tables = w.draft.tables ∧
      (((∀ j ∈ js, j.IsRead) ∧ v.cursor.Passes us more) ∨
        ((¬∀ j ∈ js, j.IsRead) ∧ StuckInJoin d v))) fun _ => Halts js := by
  simp only [keywordTypes, List.map_cons, List.map_nil, List.mem_cons, List.not_mem_nil,
    or_false, not_or] at hstop
  rw [joinCondition_eq]
  cases hs with
  | none =>
    apply settles_noSkip hw (by simpa using hstop.1)
    rw [if_neg (by simp)]
    apply settles_noSkip hw (by simpa using hstop.2.1)
    exact Settles.pure ⟨rfl, Or.inl ⟨by simp, hw⟩⟩
  | @columns u l cs hu hl hcs =>
    apply settles_noSkip hw (by simp [hu])
    rw [if_neg (by simp)]
    apply settles_skipIf hw (by simp [hu])
    intro v hv
    rw [if_pos rfl]
    apply (achieves_skipParentheses hl hcs hv.passes).bind
    rintro _ x ⟨-, hx, hcount⟩
    exact Settles.pure ⟨by rw [hcount.collects.tables, hv.draft], Or.inl ⟨by simp, hx⟩⟩
  | @on o js ts ho hjs =>
    have hp : w.cursor.Passes (o :: (ts ++ us)) more := hw
    apply settles_skipIf hp (by simp [ho])
    intro v hv
    rw [if_pos rfl]
    have hmoves := hv.passes.length_lt_moves
    have hlength := hjs.length_le
    rw [List.length_append] at hmoves
    have hread := @settles_joinTests d v ts us more js hjs hus hstop.2.2 v.cursor.moves
      (by omega) [] hv.passes
    have hlist : Settles v (separated [.keyword .AND] joinTest) _ _ := hread
    apply hlist.bind
    rintro _ x ⟨htables, hend⟩
    exact Settles.pure ⟨by rw [htables, hv.draft], hend⟩

end SqlFront

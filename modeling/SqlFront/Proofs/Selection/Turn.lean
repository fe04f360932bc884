import SqlFront.Proofs.Selection.Part

/-!
# Turns of an item

Behind its first operand an item is read in turns: a turn moves past an operator with its operand,
or past a negative number. What a turn moves past is determined by the parts, so there is one place
where the turns end.
-/

set_option autoImplicit false

namespace SqlFront

open SqlFront.Parser SqlFront.Clause

variable {w v : Workspace Findings} {t o c l : Token} {us ts more : List Token}
  {ps qs rs : List Part}

/-! ## One turn and all turns -/

inductive PastOperand : List Part → List Part → Prop
  | word {t : Token} {ps : List Part} : ps.head?.any Part.isGroup = false →
      PastOperand (.word t :: ps) ps
  | call {t l : Token} {us : List Token} {ps : List Part} :
      PastOperand (.word t :: .group l us :: ps) ps
  | group {l : Token} {us : List Token} {ps : List Part} : PastOperand (.group l us :: ps) ps
  | choice {c : Token} {us : List Token} {ps : List Part} : PastOperand (.choice c us :: ps) ps

inductive Turn : List Part → List Part → Prop
  | negative {t : Token} {ps : List Part} : isNegativeNumber t = true → Turn (.word t :: ps) ps
  | operator {o : Token} {ps qs : List Part} : o.type ∈ operators → PastOperand ps qs →
      Turn (.word o :: ps) qs

theorem PastOperand.unique (h : PastOperand ps qs) (h' : PastOperand ps rs) : qs = rs := by
  cases h <;> cases h' <;> simp_all [Part.isGroup]

theorem PastOperand.suffix (h : PastOperand ps qs) : qs <:+ ps := by
  cases h with
  | call => exact ((List.suffix_cons _ _).trans (List.suffix_cons _ _))
  | word | group | choice => exact List.suffix_cons _ _

theorem PastOperand.length_lt (h : PastOperand ps qs) : qs.length < ps.length := by
  cases h <;> simp only [List.length_cons] <;> omega

theorem turn_unique : Relator.RightUnique Turn := by
  intro ps qs rs h h'
  cases h with
  | negative hn =>
    cases h' with
    | negative => rfl
    | operator ho => exact (not_operator_of_negative hn ho).elim
  | operator ho hp =>
    cases h' with
    | negative hn => exact (not_operator_of_negative hn ho).elim
    | operator _ hp' => exact hp.unique hp'

theorem Turn.suffix (h : Turn ps qs) : qs <:+ ps := by
  cases h with
  | negative => exact List.suffix_cons _ _
  | operator _ hp => exact hp.suffix.trans (List.suffix_cons _ _)

theorem Turn.length_lt (h : Turn ps qs) : qs.length < ps.length := by
  cases h with
  | negative => simp
  | operator _ hp => exact Nat.lt_succ_of_lt hp.length_lt

abbrev Turns : List Part → List Part → Prop := Relation.ReflTransGen Turn

def NoTurn (ps : List Part) : Prop := ∀ qs, ¬Turn ps qs

theorem Turns.suffix (h : Turns ps qs) : qs <:+ ps := by
  induction h with
  | refl => exact List.suffix_rfl
  | tail _ hturn ih => exact hturn.suffix.trans ih

theorem NoTurn.eq (h : NoTurn ps) (hqs : Turns ps qs) : qs = ps := by
  rcases Relation.ReflTransGen.cases_head_iff.1 hqs with rfl | ⟨rs, hturn, -⟩
  · rfl
  · exact (h rs hturn).elim

/-- There is one place where turns end. -/
theorem Turns.unique (h : Turns ps qs) (hq : NoTurn qs) (h' : Turns ps rs) (hr : NoTurn rs) :
    qs = rs := by
  rcases Relation.ReflTransGen.total_of_right_unique turn_unique h h' with h | h
  · exact (hq.eq h).symm
  · exact hr.eq h

theorem noTurn_nil : NoTurn [] := by
  intro qs h
  cases h

theorem noTurn_word (ho : t.type ∉ operators) (hn : isNegativeNumber t = false) :
    NoTurn (.word t :: ps) := by
  rintro qs (hneg | ⟨hop, -⟩)
  · simp [hn] at hneg
  · exact ho hop

/-! ## Reading turns -/

def ReadPast (w : Workspace Findings) (rest : List Part) (us more : List Token)
    (v : Workspace Findings) : Prop :=
  v.cursor.Passes (tokensOf rest ++ us) more ∧ Collects w 0 [] v

theorem achieves_closed (h : Formed (.group l us :: ps))
    (hw : w.cursor.Passes (tokensOf (.group l us :: ps) ++ ts) more) :
    Achieves w skipParentheses fun _ v => ReadPast w ps ts more v := by
  obtain ⟨hl, hus, hcount⟩ := h.group
  have hp : w.cursor.Passes (l :: us ++ (tokensOf ps ++ ts)) more := by simpa using hw
  apply (achieves_skipParentheses hl hus hp).mono
  intro _ v hv
  have hread := hv.collects
  rw [placeholderCount_cons, placeholderCount_of_ne (by simp [hl]), hcount] at hread
  exact ⟨hv.passes, hread⟩

theorem achieves_callBehind (h : Formed ps) (hus : frontType (us ++ more) ≠ .symbol .leftParen)
    (hw : w.cursor.Passes (tokensOf ps ++ us) more) :
    Achieves w skipParentheses fun _ v => ∃ rest, PastOperand (.word t :: ps) rest ∧
      ReadPast w rest us more v := by
  by_cases hg : ps.head?.any Part.isGroup = false
  · have hat : w.cursor.isAt (.symbol .leftParen) = false := by
      rw [hw.isAt, List.append_assoc, beq_eq_false_iff_ne]
      exact h.not_paren hg hus
    apply (achieves_noParentheses hat).mono
    rintro _ v rfl
    exact ⟨ps, .word hg, hw, .refl v⟩
  · obtain ⟨l, vs, ps, rfl⟩ := exists_group hg
    apply (achieves_closed h hw).mono
    exact fun _ v hv => ⟨ps, .call, hv⟩

def skipTurnOperand : Parser Findings Unit := do
  if ← isAt (.keyword .CASE) then skipCase else skipOperand

theorem nextOperand_eq : nextOperand = (do
    if isNegativeNumber (← current) then
      advance
      return true
    else if ← skipIf operators then
      skipTurnOperand
      return true
    else return false) := by
  unfold nextOperand skipTurnOperand
  simp only [bind_assoc]
  congr 1
  funext t
  split
  · rfl
  · congr 1
    funext b
    cases b with
    | false => rfl
    | true =>
      simp only [if_true]
      congr 1
      funext b
      cases b <;> rfl

theorem achieves_turnOperand (h : Formed ps) (hne : ps ≠ [])
    (hus : frontType (us ++ more) ≠ .symbol .leftParen)
    (hw : w.cursor.Passes (tokensOf ps ++ us) more) :
    Achieves w skipTurnOperand fun _ v => ∃ rest, PastOperand ps rest ∧ ReadPast w rest us more v := by
  obtain ⟨p, ps, rfl⟩ := List.exists_cons_of_ne_nil hne
  unfold skipTurnOperand skipOperand
  apply settles_isAt.2
  rw [hw.isAt]
  cases p with
  | word t =>
    have ht := h.word
    simp only [Part.bounds, List.mem_cons, not_or] at ht
    rw [tokensOf_word] at hw ⊢
    simp only [List.cons_append, frontType_cons, beq_eq_false_iff_ne.2 ht.2.2.2.2.1]
    rw [if_neg (by simp)]
    apply settles_isAt.2
    rw [hw.isAt]
    simp only [List.cons_append, frontType_cons, beq_eq_false_iff_ne.2 ht.2.2.2.1]
    rw [if_neg (by simp)]
    apply settles_isAt.2
    rw [hw.isAt]
    simp only [List.cons_append, frontType_cons, beq_eq_false_iff_ne.2 ht.1]
    rw [if_neg (by simp)]
    apply (achieves_advance hw).bind
    intro _ v hv
    apply (achieves_callBehind h.tail hus hv.passes).bind
    rintro _ x ⟨rest, hpast, hx, hread⟩
    exact Settles.pure ⟨rest, hpast, hx, (Collects.of_eq hv.draft).trans hread⟩
  | group l vs =>
    have hl := h.group.1
    simp only [tokensOf_group, List.cons_append, frontType_cons, hl]
    rw [if_neg (by simp)]
    apply settles_isAt.2
    rw [hw.isAt, tokensOf_group, List.cons_append, List.cons_append, frontType_cons, hl,
      if_neg (by simp)]
    apply settles_isAt.2
    rw [hw.isAt, tokensOf_group, List.cons_append, List.cons_append, frontType_cons, hl,
      beq_self_eq_true, if_pos rfl]
    apply (achieves_closed h hw).bind
    exact fun _ v hv => Settles.pure ⟨ps, .group, hv⟩
  | choice c vs =>
    obtain ⟨hc, hvs⟩ := h.choice
    simp only [tokensOf_choice, List.cons_append, frontType_cons, hc, beq_self_eq_true, if_true]
    have hp : w.cursor.Passes (c :: vs ++ (tokensOf ps ++ us)) more := by simpa using hw
    apply (achieves_skipCase hc hvs hp).mono
    exact fun _ v hv => ⟨ps, .choice, hv⟩

theorem achieves_nextOperand (h : Formed ps) (hf : Finished ps)
    (hus : endsOperand (us ++ more) = true) (hw : w.cursor.Passes (tokensOf ps ++ us) more) :
    Achieves w nextOperand fun b v => (b = true ∧ ∃ rest, Turn ps rest ∧ ReadPast w rest us more v) ∨
      (b = false ∧ NoTurn ps ∧ v = w) := by
  rw [nextOperand_eq]
  apply settles_current.2
  cases ps with
  | nil =>
    rw [not_negative (show w.cursor.Faces (us ++ more) from hw.faces) hus, if_neg (by simp)]
    apply settles_noSkip hw (not_operator hus)
    exact Settles.pure (Or.inr ⟨rfl, noTurn_nil, rfl⟩)
  | cons p ps =>
    cases p with
    | word t =>
      rw [tokensOf_word, List.cons_append] at hw
      rw [hw.current]
      by_cases hneg : isNegativeNumber t = true
      · rw [if_pos hneg]
        apply (achieves_advance hw).bind
        intro _ v hv
        exact Settles.pure (Or.inl ⟨rfl, ps, .negative hneg, hv.passes, .of_eq hv.draft⟩)
      · rw [if_neg hneg]
        by_cases hop : t.type ∈ operators
        · apply settles_skipIf hw hop
          intro v hv
          rw [if_pos rfl]
          apply (achieves_turnOperand h.tail (hf.ne_nil hop) (not_leftParen hus) hv.passes).bind
          rintro _ x ⟨rest, hpast, hx, hread⟩
          exact Settles.pure (Or.inl ⟨rfl, rest, .operator hop hpast, hx,
            (Collects.of_eq hv.draft).trans hread⟩)
        · apply settles_noSkip hw hop
          refine Settles.pure (Or.inr ⟨rfl, noTurn_word hop (by simpa using hneg), rfl⟩)
    | group l vs | choice l vs =>
      -- No turn begins with a parenthesis or with CASE.
      have hl : w.cursor.current.type ∉ TokenType.literal .int :: .literal .float :: operators := by
        rw [hw.type]
        first
        | simp [h.group.1, operators]
        | simp [h.choice.1, operators]
      simp only [List.mem_cons, not_or] at hl
      have hneg : isNegativeNumber w.cursor.current = false := by
        simp [isNegativeNumber, hl]
      rw [hneg, if_neg (by simp)]
      apply settles_notAt hl.2.2
      refine Settles.pure (Or.inr ⟨rfl, ?_, rfl⟩)
      intro qs hturn
      cases hturn

theorem achieves_turns (h : Formed ps) (hf : Finished ps) (hus : endsOperand (us ++ more) = true)
    (hw : w.cursor.Passes (tokensOf ps ++ us) more) :
    Achieves w (whileM nextOperand (return ())) fun _ v => ∃ rest, Turns ps rest ∧ NoTurn rest ∧
      ReadPast w rest us more v := by
  have hlength : ps.length < w.cursor.moves := by
    have hlt := hw.length_lt_moves
    rw [List.length_append] at hlt
    exact Nat.lt_of_le_of_lt (Nat.le_trans (length_le_tokens ps) (Nat.le_add_right _ _)) hlt
  have hI : ∃ rest, Turns ps rest ∧ rest.length = ps.length ∧ ReadPast w rest us more w :=
    ⟨ps, .refl, rfl, hw, .refl w⟩
  refine Settles.repeatFrom (I := fun n (_ : Unit) v => ∃ rest, Turns ps rest ∧ rest.length = n ∧
    ReadPast w rest us more v) ?_ hI hlength
  rintro n - v ⟨rest, hturns, rfl, hv, hread⟩
  have hsuffix := hturns.suffix
  apply (achieves_nextOperand (h.suffix hsuffix) (hf.suffix hsuffix) hus hv).bind
  rintro b x (⟨rfl, rest', hturn, hx, hread'⟩ | ⟨rfl, hnone, rfl⟩)
  · exact Settles.pure ⟨rest'.length, hturn.length_lt, rest', hturns.tail hturn, rfl, hx,
      hread.trans hread'⟩
  · exact Settles.pure ⟨rest, hturns, hnone, hv, hread⟩

end SqlFront

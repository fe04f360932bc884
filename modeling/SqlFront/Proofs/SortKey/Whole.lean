import SqlFront.Proofs.SortKey.Value

/-!
# Whole values are read up to their end

In front of a token that goes on with no operand, the reader of expressions moves past a whole value
and stops there. With what it is known to answer wherever it stops, the value is known as well.
-/

set_option autoImplicit false

namespace SqlFront

open SqlFront.Parser SqlFront.Clause

variable {w v : Workspace Findings} {t : Token} {ts us more : List Token}

/-! ## Placeholders that are counted -/

def wholeCount : List Token → ℕ
  | t :: d :: m :: ts =>
    if t.type ≠ .symbol .leftParen ∧ d.type = .symbol .dot then placeholderCount (t :: ts)
    else placeholderCount (t :: d :: m :: ts)
  | ts => placeholderCount ts

theorem wholeCount_member {d m : Token} (ht : t.type ≠ .symbol .leftParen)
    (hd : d.type = .symbol .dot) : wholeCount (t :: d :: m :: ts) = placeholderCount (t :: ts) :=
  if_pos ⟨ht, hd⟩

theorem wholeCount_of_front (h : t.type = .symbol .leftParen ∨ frontType ts ≠ .symbol .dot) :
    wholeCount (t :: ts) = placeholderCount (t :: ts) := by
  match ts with
  | [] | [_] => rfl
  | d :: m :: ts =>
    apply if_neg
    rintro ⟨ht, hd⟩
    exact h.elim ht fun h => h hd

/-! ## Operands -/

theorem achieves_callRest (h : Operand (t :: us)) (ht : t.type ≠ .symbol .leftParen)
    (hend : Ends (t :: us) (ts ++ more)) (hw : w.cursor.Passes (us ++ ts) more) :
    Achieves w skipParentheses fun _ => Passed w (placeholderCount us) us ts more := by
  cases h with
  | token =>
    have hat : w.cursor.isAt (.symbol .leftParen) = false := by
      rw [hw.isAt, beq_eq_false_iff_ne]
      exact hend rfl
    apply (achieves_noParentheses hat).mono
    rintro _ v rfl
    exact .refl hw
  | call _ hl hus => exact achieves_skipParentheses hl hus hw
  | group hl => exact (ht hl).elim

theorem achieves_counted {x : Workspace Findings} (h : Operand us) (hend : Ends us (ts ++ more))
    (hx : x.cursor.Passes (us ++ ts) more) (hcursor : x.cursor = w.cursor)
    (hcount : ∀ t ∈ us.head?, ∀ v : Workspace Findings, v.draft = x.draft →
      OnlyCounts w (placeholderCount [t]) v)
    (hparen : frontType us = .symbol .leftParen → x = w) :
    Achieves x (do
      if ← isAt (.symbol .leftParen) then
        let _ ← skipParentheses
      else
        advance
        let _ ← skipParentheses) fun _ => Passed w (placeholderCount us) us ts more := by
  obtain ⟨t, us, rfl⟩ := List.exists_cons_of_ne_nil h.ne_nil
  apply settles_isAt.2
  rw [hx.isAt, List.cons_append, List.cons_append, frontType_cons]
  by_cases ht : t.type = .symbol .leftParen
  · obtain rfl := hparen ht
    rw [ht, beq_self_eq_true, if_pos rfl]
    cases h with
    | token hne | call hne => exact (hne ht).elim
    | group hl hus =>
      apply (achieves_skipParentheses hl hus hx).bind
      intro _ v hv
      exact Settles.pure hv
  · rw [beq_eq_false_iff_ne.2 ht, if_neg (by simp)]
    apply (achieves_advance hx).bind
    intro _ y hy
    apply (achieves_callRest h ht hend hy.passes).bind
    intro _ v hv
    rw [placeholderCount_cons]
    have hw : w.cursor.Passes (t :: (us ++ ts)) more := hcursor ▸ hx
    have hfirst : Passed w (placeholderCount [t]) [t] (us ++ ts) more y :=
      .single hw (hcursor ▸ hy.advance) hy.passes (hcount t rfl y hy.draft)
    exact Settles.pure (hfirst.trans hv)

theorem achieves_wholeOperand (h : Operand us) (hend : Ends us (ts ++ more))
    (hw : w.cursor.Passes (us ++ ts) more) :
    Achieves w skipOperand fun _ => Passed w (placeholderCount us) us ts more := by
  have hfront : frontType (us ++ ts ++ more) = frontType us := by
    rw [List.append_assoc, frontType_append h.ne_nil]
  unfold skipOperand
  apply settles_isAt.2
  rw [hw.isAt, hfront]
  by_cases hq : frontType us = .symbol .question
  · -- A placeholder is counted first, which moves nothing.
    rw [hq, beq_self_eq_true, if_pos rfl]
    apply settles_countPlaceholder.2
    refine achieves_counted h hend hw rfl ?_ fun hl => ?_
    · rintro t ht v hv
      refine .placeholder ?_ hv
      simpa [frontType, Option.mem_def.1 ht] using hq
    · simp [hq] at hl
  · rw [beq_eq_false_iff_ne.2 hq, if_neg (by simp)]
    refine achieves_counted h hend hw rfl ?_ fun _ => rfl
    rintro t ht v hv
    refine .token ?_ hv
    simpa [frontType, Option.mem_def.1 ht] using hq

theorem Chained.not_leftParen (h : Chained ts) (hm : endsOperand more = true) :
    frontType (ts ++ more) ≠ .symbol .leftParen := by
  cases h with
  | nil => exact SqlFront.not_leftParen hm
  | @cons o us ts ho =>
    rw [List.cons_append, frontType_cons]
    intro hl
    simp [hl, operators] at ho

theorem not_question_of_operator (h : t.type ∈ operators) : t.type ≠ .symbol .question := by
  intro hq
  simp [hq, operators] at h

theorem achieves_wholeChain (h : Chained ts) (hm : endsOperand more = true)
    (hw : w.cursor.Passes ts more) :
    Achieves w skipOperations fun _ => Passed w (placeholderCount ts) ts [] more := by
  have hturns : ∀ k, ts.length < k → Achieves w
      (repeatFor (whileTurn (skipIf operators) skipOperand) k ())
      fun _ => Passed w (placeholderCount ts) ts [] more := by
    intro k hk
    -- By induction on the chain, which is moved past turn by turn.
    induction h generalizing w k with
    | nil =>
      obtain ⟨k, rfl⟩ := Nat.exists_eq_add_of_lt hk
      exact settles_lastTurn (achieves_noSkip (hw.type ▸ not_operator hm)) (.refl hw)
    | @cons o us ts ho hus hts ih =>
      obtain ⟨k, rfl⟩ := Nat.exists_eq_add_of_lt hk
      apply settles_turn (achieves_skip hw ho)
      intro v hv
      apply (achieves_wholeOperand hus (fun _ => hts.not_leftParen hm) hv.passes).mono
      intro _ x hx
      apply (ih hx.passes _ (by simp only [List.length_cons, List.length_append]; omega)).mono
      intro _ y hy
      rw [placeholderCount_cons, placeholderCount_append]
      exact (hv.passed hw (not_question_of_operator ho)).trans (hx.trans hy)
  exact hturns _ (by have := hw.length_lt_moves; omega)

theorem achieves_wholeContinuation (h : Continued ts) (hm : endsOperand more = true)
    (hw : w.cursor.Passes ts more) :
    Achieves w skipContinuation fun b v => b = !ts.isEmpty ∧
      Passed w (placeholderCount ts) ts [] more v := by
  unfold skipContinuation
  apply settles_isAtAny.2
  rw [hw.isAtAny, List.contains_eq_mem]
  by_cases hop : frontType (ts ++ more) ∈ operators
  · rw [decide_eq_true hop, if_pos rfl]
    have hne : ts ≠ [] := by
      rintro rfl
      exact not_operator hm hop
    have hchain : Chained ts := by
      cases h with
      | chain h => exact h
      | negative hn => exact (not_operator_of_negative hn hop).elim
    apply (achieves_wholeChain hchain hm hw).bind
    intro _ v hv
    exact Settles.pure ⟨by simpa using hne, hv⟩
  · rw [decide_eq_false hop, if_neg (by simp)]
    apply settles_current.2
    cases h with
    | chain h =>
      obtain rfl : ts = [] := by
        cases h with
        | nil => rfl
        | cons ho => exact (hop ho).elim
      rw [not_negative hw.faces hm, if_neg (by simp)]
      exact Settles.pure ⟨rfl, .refl hw⟩
    | @negative n hn =>
      rw [hw.current, if_pos hn]
      apply (achieves_advance hw).bind
      intro _ v hv
      refine Settles.pure ⟨rfl, hv.passed hw ?_⟩
      intro hq
      simp [isNegativeNumber, hq] at hn

/-! ## Values -/

def Valued (w : Workspace Findings) (n : ℕ) (ts more : List Token) (e : Expression)
    (v : Workspace Findings) : Prop :=
  e = wholeValue w.cursor.text w.draft.placeholders ts ∧ Passed w n ts [] more v

theorem achieves_wholeText {x : Workspace Findings} {n : ℕ} (hx : Passed x n ts [] more w)
    (hlen : 1 < ts.length)
    (hmember : ∀ t d m, ts = [t, d, m] → t.type = .symbol .leftParen ∨ d.type ≠ .symbol .dot) :
    Achieves w (rawFrom x.cursor.current.start) (Valued x n ts more) := by
  have hne : ts ≠ [] := List.ne_nil_of_length_pos (Nat.zero_lt_of_lt hlen)
  unfold rawFrom
  apply settles_cursor.2
  refine Settles.pure ⟨?_, hx⟩
  rw [wholeValue_text hlen hmember]
  exact raw_eq_sourceOf hx.walk hne

theorem achieves_wholeRest {e : Expression} {x : Workspace Findings} {n : ℕ}
    (hx : Passed x n us ts more w) (hus : us ≠ []) (h : Continued ts) (hm : endsOperand more = true)
    (he : e = wholeValue x.cursor.text x.draft.placeholders us)
    (hmember : ∀ t d m, us ++ ts = [t, d, m] → ts ≠ [] →
      t.type = .symbol .leftParen ∨ d.type ≠ .symbol .dot) :
    Achieves w (do if ← skipContinuation then rawFrom x.cursor.current.start else return e)
      (Valued x (n + placeholderCount ts) (us ++ ts) more) := by
  apply (achieves_wholeContinuation h hm hx.passes).bind
  rintro b v ⟨rfl, hv⟩
  have hmoved := hx.trans hv
  cases ts with
  | nil =>
    refine Settles.pure ⟨?_, hmoved⟩
    rw [List.append_nil]
    exact he
  | cons t ts =>
    refine achieves_wholeText hmoved ?_ fun a d m heq => hmember a d m heq (by simp)
    have hpos := List.length_pos_iff.2 hus
    simp only [List.length_append, List.length_cons]
    omega

theorem achieves_parenthesized {l : Token} {x : Workspace Findings} {n : ℕ} {before : List Token}
    (hx : Passed x n before (l :: us ++ ts) more w) (hl : l.type = .symbol .leftParen)
    (hus : Closes 0 us) (hts : Chained ts) (hm : endsOperand more = true)
    (hmember : ∀ t d m, before ++ l :: (us ++ ts) = [t, d, m] →
      t.type = .symbol .leftParen ∨ d.type ≠ .symbol .dot) :
    Achieves w (do let _ ← skipParentheses; skipOperations; rawFrom x.cursor.current.start)
      (Valued x (n + placeholderCount (l :: (us ++ ts))) (before ++ l :: (us ++ ts)) more) := by
  apply (achieves_skipParentheses hl hus hx.passes).bind
  intro _ v hv
  apply (achieves_wholeChain hts hm hv.passes).bind
  intro _ y hy
  have hmoved := hx.trans (hv.trans hy)
  rw [← placeholderCount_append] at hmoved
  refine achieves_wholeText hmoved ?_ hmember
  have hpos : 0 < us.length := by cases hus <;> simp
  simp only [List.length_append, List.length_cons]
  omega

theorem achieves_whole (h : Whole ts) (hm : endsOperand more = true)
    (hw : w.cursor.Passes ts more) :
    Achieves w operandChain (Valued w (wholeCount ts) ts more) := by
  rw [operandChain_eq]
  apply settles_current.2
  apply settles_isAt.2
  rw [hw.isAt]
  cases h with
  | @group l us ts hl hus hts =>
    rw [List.cons_append, frontType_cons, hl, beq_self_eq_true, if_pos rfl,
      wholeCount_of_front (Or.inl hl)]
    have hstart : Passed w 0 [] (l :: us ++ ts) more w := .refl hw
    have hread := achieves_parenthesized hstart hl hus hts hm ?_
    · rwa [Nat.zero_add] at hread
    · rintro t d m heq
      obtain ⟨rfl, -⟩ := List.cons.inj heq
      exact Or.inl hl
  | @call t l us ts ht hl hus hts =>
    rw [List.cons_append, frontType_cons, beq_eq_false_iff_ne.2 ht, if_neg (by simp),
      wholeCount_of_front (Or.inr (by simp [hl])), placeholderCount_cons]
    apply achieves_front hw
    intro x hx
    apply settles_noSkip hx.passes (by simp [hl])
    rw [if_neg (by simp)]
    apply settles_isAt.2
    rw [hx.passes.isAt, List.cons_append, frontType_cons, hl, beq_self_eq_true, if_pos rfl]
    refine achieves_parenthesized hx hl hus hts hm ?_
    rintro a d m heq
    simp only [List.cons_append, List.nil_append, List.cons.injEq] at heq
    exact Or.inr (by simp [← heq.2.1, hl])
  | @member t d n ts ht hd hts =>
    rw [List.cons_append, frontType_cons, beq_eq_false_iff_ne.2 ht, if_neg (by simp),
      wholeCount_member ht hd, placeholderCount_cons]
    apply achieves_front hw
    intro x hx
    apply settles_skipIf hx.passes (by simp [hd])
    intro y hy
    rw [if_pos rfl]
    apply settles_current.2
    apply (achieves_advance hy.passes).bind
    intro _ z hz
    -- What stands behind the dot is not counted.
    have hname : Passed w (placeholderCount [t]) [t, d, n] ts more z := by
      have hmember : x.cursor.Walk ([d] ++ [n]) z.cursor :=
        (hy.walk hx.passes).append (hz.walk hy.passes)
      have hdraft : z.draft = x.draft := by rw [hz.draft, hy.draft]
      exact ⟨hx.walk.append hmember, hz.passes, hx.counts.congr hdraft⟩
    have hvalue : Expression.property w.cursor.current.literals y.cursor.current.literals =
        wholeValue w.cursor.text w.draft.placeholders [t, d, n] := by
      rw [hw.current, hy.passes.current, wholeValue_member ht hd]
    refine achieves_wholeRest hname (by simp) hts hm hvalue ?_
    rintro a b c heq hne
    simp only [List.cons_append, List.nil_append, List.cons.injEq] at heq
    exact (hne heq.2.2.2).elim
  | @word t ts ht hdot hts =>
    rw [List.cons_append, frontType_cons, beq_eq_false_iff_ne.2 ht, if_neg (by simp),
      wholeCount_of_front (Or.inr hdot), placeholderCount_cons]
    apply achieves_front hw
    intro x hx
    have hfront : frontType (ts ++ more) ≠ .symbol .dot ∧
        frontType (ts ++ more) ≠ .symbol .leftParen := by
      cases ts with
      | nil => exact ⟨fun h => not_operator hm (by simp at h; simp [h, operators]), not_leftParen hm⟩
      | cons u us => exact ⟨hdot, hts.not_paren⟩
    apply settles_noSkip hx.passes (by simpa using hfront.1)
    rw [if_neg (by simp)]
    apply settles_isAt.2
    rw [hx.passes.isAt, beq_eq_false_iff_ne.2 hfront.2, if_neg (by simp)]
    refine achieves_wholeRest hx (by simp) hts hm rfl ?_
    rintro a d m heq -
    obtain ⟨-, rfl⟩ := List.cons.inj heq
    exact Or.inr hdot

/-! ## Expressions -/

theorem Cursor.Faces.unique {c : Cursor} (h : c.Faces (t :: ts)) (ht : t.type ≠ .endOfText)
    (h' : c.Faces us) : us = t :: ts := by
  rcases h'.rest with hr | ⟨rfl, -⟩
  · exact hr.symm.trans h.rest_cons
  · exact (ht (h.type.symm.trans h'.type)).elim

theorem expression_whole {e : Expression} {v : Workspace Findings} {all : List Token}
    (hall : Inner all) (hw : w.cursor.Faces all) (h : expression w = .ok e v)
    (hv : v.cursor.Faces (t :: more)) (ht : t.type ≠ .endOfText) :
    ∃ ts, all = ts ++ t :: more ∧ Whole ts ∧
      e = wholeValue w.cursor.text w.draft.placeholders ts := by
  obtain ⟨x, hx, hc⟩ := expression_ok h
  have hcursor : v.cursor = x.cursor := by rcases hc with rfl | ⟨-, rfl⟩ <;> rfl
  obtain ⟨rest, hrest, htakes⟩ := operandChain_takes hall hw hx
  obtain rfl := (hcursor ▸ hv).unique ht hrest
  obtain ⟨ts, hsplit, -, hwhole⟩ := htakes (by simp)
  exact ⟨ts, hsplit, hwhole⟩

structure ReadWhole (w : Workspace Findings) (ts more : List Token) (v : Workspace Findings) :
    Prop where
  walk : w.cursor.Walk ts v.cursor
  passes : v.cursor.Passes [] more
  draft : ∃ edits, v.draft = { w.draft with
      placeholders := w.draft.placeholders + wholeCount ts
      edits := w.draft.edits ++ edits } ∧
    (edits = [] ∨ ∃ start owner name, edits = [.table start owner] ∧
      wholeValue w.cursor.text w.draft.placeholders ts = .property owner name)

/-- A whole value is read as what its tokens say. -/
theorem expression_read (hts : Whole ts) (hm : endsOperand more = true)
    (hw : w.cursor.Passes ts more) : Achieves w expression fun e v =>
      e = wholeValue w.cursor.text w.draft.placeholders ts ∧ ReadWhole w ts more v := by
  have kept : ∀ {x : Workspace Findings}, Passed w (wholeCount ts) ts [] more x →
      ReadWhole w ts more x := by
    intro x hx
    refine ⟨hx.walk, hx.passes, [], ?_, Or.inl rfl⟩
    rw [hx.counts, List.append_nil]
  unfold expression
  apply settles_current.2
  apply (achieves_whole hts hm hw).bind
  rintro e x ⟨he, hx⟩
  cases e with
  | property owner name =>
    simp only
    apply settles_draft.2
    split
    · apply settles_modifyDraft.2
      refine Settles.pure ⟨he, hx.walk, hx.passes, [.table w.cursor.current.start owner], ?_,
        Or.inr ⟨_, owner, name, rfl, he.symm⟩⟩
      rw [hx.counts]
      rfl
    · exact Settles.pure ⟨he, kept hx⟩
  | identifier | number | text | placeholder | raw => exact Settles.pure ⟨he, kept hx⟩

end SqlFront

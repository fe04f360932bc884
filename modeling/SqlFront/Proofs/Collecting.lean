import SqlFront.Proofs.Operand
import SqlFront.Proofs.Parser.Settling

/-!
# Collecting conditions

A reader for the findings of a statement moves past tokens, counts the placeholders among them and
collects conditions. Parentheses are moved past as a whole where they are balanced.
-/

set_option autoImplicit false

namespace SqlFront

open SqlFront.Parser SqlFront.Clause

variable {w w₁ w₂ v : Workspace Findings} {t : Token} {us ts more : List Token} {n m : ℕ}
  {cs ds : List Condition}

def Findings.behind (f : Findings) (n : ℕ) (cs : List Condition) (edits : List Edit) : Findings :=
  { f with
    conditions := cs.foldl Conditions.add f.conditions
    edits := edits
    placeholders := f.placeholders + n }

def Collects (w : Workspace Findings) (n : ℕ) (cs : List Condition) (v : Workspace Findings) :
    Prop :=
  ∃ edits, v.draft = w.draft.behind n cs edits

theorem Collects.of_eq (h : v.draft = w.draft) : Collects w 0 [] v := ⟨w.draft.edits, h⟩

theorem Collects.refl (w : Workspace Findings) : Collects w 0 [] w := .of_eq rfl

theorem Collects.trans (h₁ : Collects w n cs w₁) (h₂ : Collects w₁ m ds w₂) :
    Collects w (n + m) (cs ++ ds) w₂ := by
  obtain ⟨edits₁, hd₁⟩ := h₁
  obtain ⟨edits₂, hd₂⟩ := h₂
  use edits₂
  rw [hd₂, hd₁]
  unfold Findings.behind
  rw [List.foldl_append, Nat.add_assoc]

/-- What leaves the draft as it is changes nothing. -/
theorem Collects.congr (h : Collects w n cs v) (hv : v.draft = w₁.draft) : Collects w n cs w₁ := by
  obtain ⟨edits, hd⟩ := h
  exact ⟨edits, hv ▸ hd⟩

/-- An edit makes no difference. -/
theorem Collects.addEdit (h : Collects w n cs v) (e : Edit) :
    Collects w n cs ⟨v.cursor, v.draft.addEdit e⟩ := by
  obtain ⟨edits, hd⟩ := h
  use edits ++ [e]
  rw [hd]
  rfl

theorem Collects.tables (h : Collects w n cs v) : v.draft.tables = w.draft.tables := by
  obtain ⟨edits, hd⟩ := h
  rw [hd]
  rfl

theorem Collects.placeholders (h : Collects w n cs v) :
    v.draft.placeholders = w.draft.placeholders + n := by
  obtain ⟨edits, hd⟩ := h
  rw [hd]
  rfl

def OnlyCounts (w : Workspace Findings) (n : ℕ) (v : Workspace Findings) : Prop :=
  v.draft = { w.draft with placeholders := w.draft.placeholders + n }

theorem OnlyCounts.refl (w : Workspace Findings) : OnlyCounts w 0 w := rfl

theorem OnlyCounts.trans (h₁ : OnlyCounts w n w₁) (h₂ : OnlyCounts w₁ m w₂) : OnlyCounts w (n + m) w₂ := by
  unfold OnlyCounts at *
  rw [h₂, h₁, Nat.add_assoc]

theorem OnlyCounts.collects (h : OnlyCounts w n v) : Collects w n [] v := ⟨w.draft.edits, h⟩

/-- What leaves the draft as it is changes nothing. -/
theorem OnlyCounts.congr (h : OnlyCounts w n v) (hv : w₁.draft = v.draft) : OnlyCounts w n w₁ := hv.trans h

/-! ## Single tokens -/

theorem placeholderCount_cons :
    placeholderCount (t :: ts) = placeholderCount [t] + placeholderCount ts := by
  unfold placeholderCount
  rw [← List.singleton_append, List.countP_append]

theorem placeholderCount_append :
    placeholderCount (us ++ ts) = placeholderCount us + placeholderCount ts := by
  simp [placeholderCount]

theorem placeholderCount_of_ne (ht : t.type ≠ .symbol .question) : placeholderCount [t] = 0 := by
  simpa [placeholderCount] using ht

theorem settles_countPlaceholder {α : Type} {f : ℕ → Parser Findings α}
    {Q : α → Workspace Findings → Prop} {F : Fault → Prop} :
    Settles w (countPlaceholder >>= f) Q F ↔
      Settles ⟨w.cursor, w.draft.countPlaceholder⟩ (f w.draft.placeholders) Q F := Iff.rfl

/-- A placeholder is counted before it is moved past. -/
theorem OnlyCounts.placeholder (ht : t.type = .symbol .question)
    (h : v.draft = w.draft.countPlaceholder) : OnlyCounts w (placeholderCount [t]) v := by
  have hcount : placeholderCount [t] = 1 := by simpa [placeholderCount] using ht
  rw [hcount]
  exact h

theorem OnlyCounts.token (ht : t.type ≠ .symbol .question) (h : v.draft = w.draft) :
    OnlyCounts w (placeholderCount [t]) v := by
  rw [placeholderCount_of_ne ht]
  exact h

theorem Collects.placeholder (ht : t.type = .symbol .question)
    (h : v.draft = w.draft.countPlaceholder) : Collects w (placeholderCount [t]) [] v :=
  (OnlyCounts.placeholder ht h).collects

theorem Collects.token (ht : t.type ≠ .symbol .question) (h : v.draft = w.draft) :
    Collects w (placeholderCount [t]) [] v :=
  (OnlyCounts.token ht h).collects

structure Passed (w : Workspace Findings) (n : ℕ) (us ts more : List Token)
    (v : Workspace Findings) : Prop where
  walk : w.cursor.Walk us v.cursor
  passes : v.cursor.Passes ts more
  counts : OnlyCounts w n v

theorem Passed.refl (hw : w.cursor.Passes ts more) : Passed w 0 [] ts more w :=
  ⟨.refl _, hw, .refl w⟩

theorem Passed.trans (h₁ : Passed w n us ts more w₁) {us' ts' more' : List Token}
    (h₂ : Passed w₁ m us' ts' more' w₂) : Passed w (n + m) (us ++ us') ts' more' w₂ :=
  ⟨h₁.walk.append h₂.walk, h₂.passes, h₁.counts.trans h₂.counts⟩

/-- A step with the placeholder counted, if it is one. -/
theorem Passed.single (hw : w.cursor.Passes (t :: ts) more) (ha : w.cursor.advance = .ok v.cursor)
    (hv : v.cursor.Passes ts more) (h : OnlyCounts w n v) : Passed w n [t] ts more v :=
  ⟨hw.current ▸ .single ha, hv, h⟩

theorem Passed.collects (h : Passed w n us ts more v) : Collects w n [] v := h.counts.collects

theorem Parser.Past.passed (h : Past w ts more v) (hw : w.cursor.Passes (t :: ts) more)
    (ht : t.type ≠ .symbol .question) : Passed w (placeholderCount [t]) [t] ts more v :=
  .single hw h.advance h.passes (.token ht h.draft)

/-- A placeholder that has been counted is moved past. -/
theorem Parser.Past.counted (h : Past ⟨w.cursor, w.draft.countPlaceholder⟩ ts more v)
    (hw : w.cursor.Passes (t :: ts) more) (ht : t.type = .symbol .question) :
    Passed w (placeholderCount [t]) [t] ts more v :=
  .single hw h.advance h.passes (.placeholder ht h.draft)

theorem achieves_skipToken (hw : w.cursor.Passes (t :: ts) more) :
    Achieves w skipToken fun _ => Passed w (placeholderCount [t]) [t] ts more := by
  unfold skipToken
  apply settles_isAt.2
  rw [hw.isAt]
  by_cases hq : t.type = .symbol .question
  · simp only [List.cons_append, frontType_cons, hq, beq_self_eq_true, if_true]
    have hw' : (Workspace.mk w.cursor w.draft.countPlaceholder).cursor.Passes (t :: ts) more := hw
    exact (achieves_advance hw').mono fun _ _ h => h.counted hw hq
  · simp only [List.cons_append, frontType_cons, beq_eq_false_iff_ne.2 hq]
    exact (achieves_advance hw).mono fun _ _ h => h.passed hw hq

/-! ## Parentheses -/

inductive Closes : ℕ → List Token → Prop
  | last {r : Token} : r.type = .symbol .rightParen → Closes 0 [r]
  | close {n : ℕ} {r : Token} {ts : List Token} : r.type = .symbol .rightParen → Closes n ts →
      Closes (n + 1) (r :: ts)
  | deeper {n : ℕ} {l : Token} {ts : List Token} : l.type = .symbol .leftParen →
      Closes (n + 1) ts → Closes n (l :: ts)
  | token {n : ℕ} {t : Token} {ts : List Token} : t.type ≠ .symbol .leftParen →
      t.type ≠ .symbol .rightParen → t.type ≠ .endOfText → Closes n ts → Closes n (t :: ts)

theorem Closes.append (h₁ : Closes n us) (h₂ : Closes m ts) : Closes (n + m + 1) (us ++ ts) := by
  induction h₁ with
  | last hr =>
    rw [Nat.zero_add]
    exact .close hr h₂
  | @close n r us hr _ ih =>
    have hdepth : n + 1 + m + 1 = n + m + 1 + 1 := by omega
    rw [hdepth]
    exact .close hr ih
  | @deeper n l us hl _ ih =>
    have hdepth : n + 1 + m + 1 = n + m + 1 + 1 := by omega
    rw [hdepth] at ih
    exact .deeper hl ih
  | token hleft hright hend _ ih => exact .token hleft hright hend ih

def InDepth (Leads : ℕ → List Token → Prop) (w : Workspace Findings) (us ts more : List Token)
    (n depth : ℕ) (v : Workspace Findings) : Prop :=
  ∃ before behind, before ++ behind = us ∧ behind.length = n ∧ Leads depth behind ∧
    Passed w (placeholderCount before) before (behind ++ ts) more v

def Closed {α : Type} (w : Workspace Findings) (us ts more : List Token) (_ : α)
    (v : Workspace Findings) : Prop :=
  Passed w (placeholderCount us) us ts more v

section InDepth

variable {α : Type} {Leads : ℕ → List Token → Prop} {before behind : List Token} {depth : ℕ}

theorem InDepth.start (hd : Leads depth us)
    (hw : Passed w (placeholderCount before) before (us ++ ts) more v) :
    InDepth Leads w (before ++ us) ts more us.length depth v :=
  ⟨before, us, rfl, rfl, hd, hw⟩

/-- One more token has been moved past. -/
theorem InDepth.step (hus : before ++ t :: behind = us) (hn : behind.length + 1 = n)
    (hd : Leads depth behind)
    (hw : Passed w (placeholderCount before) before (t :: behind ++ ts) more v)
    (h : Passed v (placeholderCount [t]) [t] (behind ++ ts) more w₁) :
    Round n (InDepth Leads w us ts more) (@Closed α w us ts more) (.inl depth) w₁ := by
  refine ⟨behind.length, by omega, before ++ [t], behind, by simpa using hus, rfl, hd, ?_⟩
  rw [placeholderCount_append]
  exact hw.trans h

theorem InDepth.skips (hus : before ++ t :: behind = us) (hn : behind.length + 1 = n)
    (hd : Leads depth behind)
    (hw : Passed w (placeholderCount before) before (t :: behind ++ ts) more v)
    (ht : t.type ≠ .symbol .question) :
    Achieves v (do advance; return .inl depth)
      (Round n (InDepth Leads w us ts more) (@Closed α w us ts more)) := by
  apply (achieves_advance hw.passes).bind
  intro _ x hx
  exact Settles.pure (InDepth.step hus hn hd hw (hx.passed hw.passes ht))

theorem InDepth.counts (hus : before ++ t :: behind = us) (hn : behind.length + 1 = n)
    (hd : Leads depth behind)
    (hw : Passed w (placeholderCount before) before (t :: behind ++ ts) more v)
    (ht : t.type = .symbol .question) :
    Achieves v (do let _ ← countPlaceholder; advance; return .inl depth)
      (Round n (InDepth Leads w us ts more) (@Closed α w us ts more)) := by
  apply settles_countPlaceholder.2
  have hp : (Workspace.mk v.cursor v.draft.countPlaceholder).cursor.Passes
      (t :: (behind ++ ts)) more := hw.passes
  apply (achieves_advance hp).bind
  intro _ x hx
  exact Settles.pure (InDepth.step hus hn hd hw (hx.counted hw.passes ht))

/-- The last token has been moved past. -/
theorem InDepth.last {a : α} (hus : before ++ [t] = us)
    (hw : Passed w (placeholderCount before) before (t :: ts) more v)
    (h : Passed v (placeholderCount [t]) [t] ts more w₁) :
    Round n (InDepth Leads w us ts more) (Closed w us ts more) (.inr a) w₁ := by
  have hclosed := hw.trans h
  rw [← placeholderCount_append, hus] at hclosed
  exact hclosed

end InDepth

def skipNested (start depth : ℕ) : Parser Findings (ℕ ⊕ String) := do
  let t ← current
  match t.type with
  | .symbol .question =>
    let _ ← countPlaceholder
    advance
    return .inl depth
  | .symbol .leftParen =>
    advance
    return .inl (depth + 1)
  | .symbol .rightParen =>
    advance
    if depth = 0 then return .inr ((← cursor).slice start t.start)
    else return .inl (depth - 1)
  | .endOfText =>
    let c ← cursor
    return .inr (c.slice start c.text.length)
  | _ =>
    advance
    return .inl depth

theorem skipParentheses_eq : skipParentheses = do
    if ← isAt (.symbol .leftParen) then
      let start := (← current).stop
      advance
      repeatFrom 0 (skipNested start)
    else return "" := rfl

theorem skipNested_round {start d : ℕ} (hI : InDepth Closes w us ts more n d v) :
    Achieves v (skipNested start d) (Round n (InDepth Closes w us ts more) (Closed w us ts more)) := by
  obtain ⟨before, behind, hsplit, hn, hc, hv⟩ := hI
  have hp := hv.passes
  unfold skipNested
  apply settles_current.2
  cases hc with
  | @last r hr =>
    rw [hp.current]
    simp only [hr]
    apply (achieves_advance hp).bind
    intro _ v₁ h₁
    rw [if_pos trivial, settles_cursor]
    exact Settles.pure (InDepth.last hsplit hv (h₁.passed hp (by simp [hr])))
  | @close n r behind hr hc =>
    rw [hp.current]
    simp only [hr, if_neg (Nat.succ_ne_zero n)]
    exact InDepth.skips hsplit hn hc hv (by simp [hr])
  | @deeper _ l behind hl hc =>
    rw [hp.current]
    simp only [hl]
    exact InDepth.skips hsplit hn hc hv (by simp [hl])
  | @token _ t behind hleft hright hend hc =>
    rw [hp.current]
    by_cases hq : t.type = .symbol .question
    · simp only [hq]
      exact InDepth.counts hsplit hn hc hv hq
    · split <;> first | contradiction | exact InDepth.skips hsplit hn hc hv hq

theorem achieves_skipParentheses {l : Token} (hl : l.type = .symbol .leftParen)
    (hus : Closes 0 us) (hw : w.cursor.Passes (l :: us ++ ts) more) :
    Achieves w skipParentheses (Closed w (l :: us) ts more) := by
  rw [skipParentheses_eq]
  have hat : w.cursor.isAt (.symbol .leftParen) = true := by
    rw [Cursor.isAt_iff, hw.current]
    exact hl
  apply settles_isAt.2
  rw [hat, if_pos rfl, settles_current]
  apply (achieves_advance hw).bind
  intro _ v hv
  have hI : InDepth Closes w (l :: us) ts more us.length 0 v :=
    .start hus (hv.passed hw (by simp [hl]))
  have hlt : (us ++ ts).length < v.cursor.moves := hv.passes.length_lt_moves
  rw [List.length_append] at hlt
  exact Settles.repeatFrom (fun _ _ _ => skipNested_round) hI (by omega)

/-- Anything but a parenthesis stays. -/
theorem achieves_noParentheses (ht : w.cursor.isAt (.symbol .leftParen) = false) :
    Achieves w skipParentheses fun _ v => v = w := by
  rw [skipParentheses_eq]
  apply settles_isAt.2
  rw [ht]
  exact Settles.pure rfl

/-! ## Operands -/

def operandValue (n : ℕ) (t : Token) : Expression :=
  if t.type = .symbol .question then .placeholder n else literal t

theorem settles_noContinuation {α : Type} {Q : α → Workspace Findings → Prop}
    {F : Fault → Prop} {f : Bool → Parser Findings α} (hw : w.cursor.Passes ts more)
    (hm : endsOperand (ts ++ more) = true) (h : Settles w (f false) Q F) :
    Settles w (skipContinuation >>= f) Q F := by
  have hskip : skipContinuation w = .ok false w := by
    have hat : w.cursor.isAtAny operators = false := by
      rw [hw.isAtAny, List.contains_eq_mem]
      exact decide_eq_false (not_operator hm)
    refine bind_ok.2 ⟨false, w, isAtAny_ok.2 ⟨hat, rfl⟩, ?_⟩
    refine bind_ok.2 ⟨w.cursor.current, w, rfl, ?_⟩
    rw [not_negative hw.faces hm]
    rfl
  exact (settles_bind_ok hskip).2 h

theorem achieves_primary (hw : w.cursor.Passes (t :: ts) more) :
    Achieves w primary fun e v => e = operandValue w.draft.placeholders t ∧
      v.cursor = w.cursor ∧ OnlyCounts w (placeholderCount [t]) v := by
  unfold primary operandValue
  apply settles_isAt.2
  rw [hw.isAt]
  by_cases hq : t.type = .symbol .question
  · simp only [List.cons_append, frontType_cons, hq, beq_self_eq_true, if_true]
    apply settles_countPlaceholder.2
    exact Settles.pure ⟨rfl, rfl, .placeholder hq rfl⟩
  · simp only [List.cons_append, frontType_cons, beq_eq_false_iff_ne.2 hq, if_neg hq]
    rw [if_neg (by simp), settles_current, hw.current]
    exact Settles.pure ⟨rfl, rfl, .token hq rfl⟩

/-- A word or a placeholder is read by itself and moved past. -/
theorem achieves_front {α : Type} {f : Expression → Parser Findings α}
    {Q : α → Workspace Findings → Prop} {F : Fault → Prop} (hw : w.cursor.Passes (t :: ts) more)
    (h : ∀ x, Passed w (placeholderCount [t]) [t] ts more x →
      Settles x (f (operandValue w.draft.placeholders t)) Q F) :
    Settles w (do let e ← primary; advance; f e) Q F := by
  apply (achieves_primary hw).bind
  rintro e v ⟨rfl, hcursor, hcount⟩
  have hv : v.cursor.Passes (t :: ts) more := hcursor ▸ hw
  apply (achieves_advance hv).bind
  intro _ x hx
  exact h x (.single hw (hcursor ▸ hx.advance) hx.passes (hcount.congr hx.draft))

theorem achieves_operand (hw : w.cursor.Passes (t :: ts) more) (ht : t.type ≠ .symbol .leftParen)
    (hm : endsOperand (ts ++ more) = true) :
    Achieves w operandChain fun e v => e = operandValue w.draft.placeholders t ∧
      v.cursor.Passes ts more ∧ Collects w (placeholderCount [t]) [] v := by
  unfold operandChain
  apply settles_current.2
  apply settles_isAt.2
  rw [hw.isAt]
  simp only [List.cons_append, frontType_cons, beq_eq_false_iff_ne.2 ht]
  rw [if_neg (by simp)]
  apply achieves_front hw
  intro v₁ h₁
  have hdot : frontType (ts ++ more) ∉ [TokenType.symbol .dot] := by
    intro hd
    apply not_operator hm
    rw [List.mem_singleton.1 hd]
    decide
  apply settles_noSkip h₁.passes hdot
  have hparen : v₁.cursor.isAt (.symbol .leftParen) = false := by
    rw [h₁.passes.isAt, beq_eq_false_iff_ne]
    exact not_leftParen hm
  rw [if_neg (by simp), settles_isAt, hparen, if_neg (by simp)]
  apply settles_noContinuation h₁.passes hm
  exact Settles.pure ⟨rfl, h₁.passes, h₁.collects⟩

theorem achieves_member {o d n : Token} (hw : w.cursor.Passes (o :: d :: n :: ts) more)
    (ho : o.isWord = true) (hd : d.type = .symbol .dot) (hm : endsOperand (ts ++ more) = true) :
    Achieves w operandChain fun e v => e = .property o.literals n.literals ∧
      v.cursor.Passes ts more ∧ Collects w 0 [] v := by
  simp only [Token.isWord, Bool.and_eq_true, bne_iff_ne] at ho
  unfold operandChain
  apply settles_current.2
  apply settles_isAt.2
  rw [hw.isAt, hw.current]
  simp only [List.cons_append, frontType_cons, beq_eq_false_iff_ne.2 ho.2]
  rw [if_neg (by simp)]
  apply achieves_front hw
  intro v₁ h₁
  apply settles_skipIf h₁.passes (by simp [hd])
  intro v₂ h₂
  rw [if_pos rfl, settles_current, h₂.passes.current]
  apply (achieves_advance h₂.passes).bind
  intro _ v₃ h₃
  apply settles_noContinuation h₃.passes hm
  apply Settles.pure
  have hcount := h₁.collects
  rw [placeholderCount_of_ne ho.1] at hcount
  have hdraft : v₁.draft = v₃.draft := by rw [h₃.draft, h₂.draft]
  exact ⟨rfl, h₃.passes, hcount.congr hdraft⟩

theorem achieves_noOperations (hw : w.cursor.Passes ts more)
    (ht : frontType (ts ++ more) ∉ operators) : Achieves w skipOperations fun _ v => v = w := by
  have hat : w.cursor.isAtAny operators = false := by
    rw [hw.isAtAny, List.contains_eq_mem]
    exact decide_eq_false ht
  exact achieves_noWhile ((settles_of_ok (skipIf_ok.2 ⟨hat, rfl⟩)).2 ⟨rfl, rfl⟩)

theorem achieves_group {l : Token} (hl : l.type = .symbol .leftParen) (hus : Closes 0 us)
    (hm : endsOperand (ts ++ more) = true) (hw : w.cursor.Passes (l :: us ++ ts) more) :
    Achieves w operandChain fun _ v =>
      v.cursor.Passes ts more ∧ Collects w (placeholderCount (l :: us)) [] v := by
  unfold operandChain
  apply settles_current.2
  apply settles_isAt.2
  rw [hw.isAt, List.cons_append, List.cons_append, frontType_cons, hl, beq_self_eq_true, if_pos rfl]
  apply (achieves_skipParentheses hl hus hw).bind
  intro _ v hv
  apply (achieves_noOperations hv.passes (not_operator hm)).bind
  rintro _ v₁ rfl
  apply settles_cursor.2
  exact Settles.pure ⟨hv.passes, hv.collects⟩

/-- The edit of an owner makes no difference to what an edit does not change. -/
theorem achieves_owned {Q : Expression → Workspace Findings → Prop}
    (hQ : ∀ e v edit, Q e v → Q e ⟨v.cursor, v.draft.addEdit edit⟩)
    (h : Achieves w operandChain Q) : Achieves w expression Q := by
  unfold expression
  apply settles_current.2
  apply h.bind
  intro e v hv
  cases e with
  | property owner name =>
    simp only
    apply settles_draft.2
    split
    · apply settles_modifyDraft.2
      exact Settles.pure (hQ _ v _ hv)
    · exact Settles.pure hv
  | identifier | number | text | placeholder | raw => exact Settles.pure hv

theorem achieves_expression {e : Expression}
    (h : Achieves w operandChain fun e' v => e' = e ∧ v.cursor.Passes ts more ∧
      Collects w n [] v) :
    Achieves w expression fun e' v => e' = e ∧ v.cursor.Passes ts more ∧ Collects w n [] v :=
  achieves_owned (fun _ _ edit h => ⟨h.1, h.2.1, h.2.2.addEdit edit⟩) h

end SqlFront

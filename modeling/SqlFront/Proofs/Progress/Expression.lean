import SqlFront.Clause.Expression
import SqlFront.Proofs.Progress.Combinator

/-!
# Expressions

The readers inside an expression only move forward, and count the placeholders that they pass. What
they keep is shown for every relation that such steps keep. An expression as a whole may add the
edit of its owner.
-/

set_option autoImplicit false

namespace SqlFront

open SqlFront.Parser SqlFront.Clause

variable {N : Cursor → Prop} {T C : Prop} {R : Workspace Findings → Workspace Findings → Prop}

theorem countPlaceholder_ok {w w' : Workspace Findings} {n : ℕ} :
    countPlaceholder w = .ok n w' ↔
      w.draft.placeholders = n ∧ w' = ⟨w.cursor, w.draft.countPlaceholder⟩ := by
  change EStateM.Result.ok w.draft.placeholders
    (Workspace.mk w.cursor w.draft.countPlaceholder) = _ ↔ _
  simp [eq_comm]

/-- A token of another type is no placeholder. -/
theorem isAt_eq_false {c : Cursor} {s t : TokenType} (h : c.isAt s = true) (hst : s ≠ t) :
    c.isAt t = false := by
  rw [Cursor.isAt_iff] at h
  simpa [Cursor.isAt, h] using hst

/-! ## Moving past a placeholder -/

class Passing (R : Workspace Findings → Workspace Findings → Prop) : Prop extends Stepwise R where
  placeholder {w : Workspace Findings} {c : Cursor} : w.cursor.isAt (.symbol .question) = true →
    w.cursor.advance = .ok c → R w ⟨c, w.draft.countPlaceholder⟩
  member {w : Workspace Findings} {c c' : Cursor} :
    w.cursor.isAtAny [.symbol .dot, .symbol .doubleColon] = true → w.cursor.advance = .ok c →
    c.advance = .ok c' → R w ⟨c', w.draft⟩

theorem progress_placeholder {w : Workspace Findings} {c : Cursor}
    (hq : w.cursor.isAt (.symbol .question) = true) (h : w.cursor.advance = .ok c) :
    Progress N T C w ⟨c, w.draft.countPlaceholder⟩ := .move (.placeholder hq h)

theorem progress_member {w : Workspace Findings} {c c' : Cursor}
    (hm : w.cursor.isAtAny [.symbol .dot, .symbol .doubleColon] = true)
    (h : w.cursor.advance = .ok c) (h' : c.advance = .ok c') :
    Progress N T C w ⟨c', w.draft⟩ := .move (.introduced (.member hm h) h')

instance : Passing (Progress N T C) where
  placeholder := progress_placeholder
  member := progress_member

variable [Passing R]

/-- A placeholder is counted and then passed. -/
theorem FollowsAt.placeholder {α : Type} {f : Unit → Parser Findings α} {w : Workspace Findings}
    (hq : w.cursor.current.type = .symbol .question) (hf : ∀ u, Follows R (f u)) :
    FollowsAt R w (do let _ ← countPlaceholder; Parser.advance >>= f) := by
  intro a w' h
  obtain ⟨_, _, hn, h⟩ := bind_ok.1 h
  obtain ⟨-, rfl⟩ := countPlaceholder_ok.1 hn
  obtain ⟨u, _, ha, h⟩ := bind_ok.1 h
  obtain ⟨c, hc, rfl⟩ := advance_ok.1 ha
  exact Stepwise.trans (Passing.placeholder (Cursor.isAt_iff.2 hq) hc) (hf u h)

theorem skipToken_ok {w w' : Workspace Findings} {u : Unit} (h : skipToken w = .ok u w') :
    ∃ c, w.cursor.advance = .ok c ∧
      ((w.cursor.isAt (.symbol .question) = true ∧ w' = ⟨c, w.draft.countPlaceholder⟩) ∨
        (w.cursor.isAt (.symbol .question) = false ∧ w' = ⟨c, w.draft⟩)) := by
  simp only [skipToken, bind_ok, isAt_ok] at h
  obtain ⟨_, _, ⟨rfl, rfl⟩, h⟩ := h
  split at h
  · next hq =>
    simp only [bind_ok, countPlaceholder_ok, advance_ok] at h
    obtain ⟨_, _, ⟨-, rfl⟩, c, hc, rfl⟩ := h
    exact ⟨c, hc, Or.inl ⟨hq, rfl⟩⟩
  · next hq =>
    obtain ⟨c, hc, rfl⟩ := advance_ok.1 h
    exact ⟨c, hc, Or.inr ⟨by simpa using hq, rfl⟩⟩

theorem follows_skipToken : Follows R skipToken := by
  intro w u w' h
  obtain ⟨c, hc, ⟨hq, rfl⟩ | ⟨hq, rfl⟩⟩ := skipToken_ok h
  · exact Passing.placeholder hq hc
  · exact Stepwise.advance hq hc

/-! ## Parentheses -/

/-- Between parentheses every token is skipped. -/
theorem follows_skipParentheses : Follows R skipParentheses := by
  refine Follows.ifAt (fun w hp => ?_) fun w _ => (Follows.pure "").at w
  intro s w' h
  simp only [bind_ok, current_ok, advance_ok] at h
  obtain ⟨t, _, ⟨rfl, rfl⟩, _, _, ⟨c, hc, rfl⟩, h⟩ := h
  have hw : R w ⟨c, w.draft⟩ := Stepwise.advance (isAt_eq_false hp (by simp)) hc
  refine Stepwise.trans hw (Follows.repeatFrom (fun depth => Follows.atCurrent fun v => ?_) h)
  split
  case h_1 hq => exact .placeholder hq fun _ => .pure _
  case h_2 ht => exact (FollowsAt.advance (by simp [ht])).bind fun _ => .pure _
  case h_3 ht =>
    refine (FollowsAt.advance (by simp [ht])).bind fun _ => ?_
    exact .ite (follows_cursor.bind fun _ => .pure _) (.pure _)
  case h_4 => exact (follows_cursor.bind fun _ => .pure _).at v
  case h_5 hq _ _ _ => exact (FollowsAt.advance hq).bind fun _ => .pure _

/-! ## Operands -/

theorem follows_skipOperand : Follows R skipOperand := by
  intro w u w' h
  simp only [skipOperand, bind_ok, isAt_ok] at h
  obtain ⟨_, _, ⟨rfl, rfl⟩, h⟩ := h
  split at h
  · next hq =>
    -- A placeholder is no parenthesis, so the cursor moves right after the count.
    have hp : w.cursor.isAt (.symbol .leftParen) = false := isAt_eq_false hq (by simp)
    simp only [bind_ok, countPlaceholder_ok, isAt_ok] at h
    obtain ⟨_, _, ⟨-, rfl⟩, _, _, ⟨rfl, rfl⟩, h⟩ := h
    simp only [hp, Bool.false_eq_true, if_false, bind_ok, advance_ok] at h
    obtain ⟨_, _, ⟨c, hc, rfl⟩, s, w₁, hs, h⟩ := h
    cases h
    exact Stepwise.trans (Passing.placeholder hq hc) (follows_skipParentheses hs)
  · next hq =>
    simp only [bind_ok, isAt_ok] at h
    obtain ⟨_, _, ⟨rfl, rfl⟩, h⟩ := h
    split at h
    · exact follows_skipParentheses.bind (fun _ => .pure _) h
    · simp only [bind_ok, advance_ok] at h
      obtain ⟨_, _, ⟨c, hc, rfl⟩, h⟩ := h
      have hw : R w ⟨c, w.draft⟩ := Stepwise.advance (by simpa using hq) hc
      exact Stepwise.trans hw (follows_skipParentheses.bind (fun _ => .pure _) (bind_ok.2 h))

theorem follows_skipOperations : Follows R skipOperations :=
  .whileM (follows_skipIf (by decide)) follows_skipOperand

theorem not_question_of_negative {c : Cursor} (h : isNegativeNumber c.current = true) :
    c.isAt (.symbol .question) = false := by
  simp only [isNegativeNumber, Bool.and_eq_true, Bool.or_eq_true, beq_iff_eq] at h
  rcases h.1 with ht | ht <;> simp [Cursor.isAt, ht]

theorem follows_skipContinuation : Follows R skipContinuation := by
  unfold skipContinuation
  refine follows_isAtAny.bind fun _ => .ite ?_ ?_
  · exact follows_skipOperations.bind fun _ => .pure _
  · intro w b w' h
    simp only [bind_ok, current_ok] at h
    obtain ⟨t, _, ⟨rfl, rfl⟩, h⟩ := h
    split at h
    · next hn =>
      simp only [bind_ok, advance_ok] at h
      obtain ⟨_, _, ⟨c, hc, rfl⟩, h⟩ := h
      cases h
      exact Stepwise.advance (not_question_of_negative hn) hc
    · exact Follows.pure _ h

theorem follows_rawFrom (start : ℕ) : Follows R (rawFrom start) :=
  follows_cursor.bind fun _ => .pure _

theorem rawFrom_ok {start : ℕ} {e : Expression} {w w' : Workspace Findings} :
    rawFrom start w = .ok e w' ↔
      e = .raw (trimmed (w.cursor.slice start w.cursor.previousStop)) ∧ w' = w := by
  simp only [rawFrom, bind_ok, cursor_ok, pure_ok]
  constructor
  · rintro ⟨_, _, ⟨rfl, rfl⟩, rfl, rfl⟩
    exact ⟨rfl, rfl⟩
  · rintro ⟨rfl, rfl⟩
    exact ⟨_, _, ⟨rfl, rfl⟩, rfl, rfl⟩

theorem follows_primary {α : Type} {f : Expression → Parser Findings α}
    (hf : ∀ e, Follows R (f e)) : Follows R (do let e ← primary; Parser.advance; f e) := by
  intro w a w' h
  obtain ⟨e, _, he, h⟩ := bind_ok.1 h
  obtain ⟨u, _, hu, h⟩ := bind_ok.1 h
  obtain ⟨c, hc, rfl⟩ := advance_ok.1 hu
  simp only [primary, bind_ok, isAt_ok] at he
  obtain ⟨_, _, ⟨rfl, rfl⟩, he⟩ := he
  split at he
  · next hq =>
    obtain ⟨n, _, hn, he⟩ := bind_ok.1 he
    obtain ⟨-, rfl⟩ := countPlaceholder_ok.1 hn
    obtain ⟨rfl, rfl⟩ := pure_ok.1 he
    exact Stepwise.trans (Passing.placeholder hq hc) (hf _ h)
  · next hq =>
    obtain ⟨t, _, ht, he⟩ := bind_ok.1 he
    obtain ⟨-, rfl⟩ := current_ok.1 ht
    obtain ⟨rfl, rfl⟩ := pure_ok.1 he
    exact Stepwise.trans (Stepwise.advance (by simpa using hq) hc) (hf _ h)

theorem follows_member {α : Type} {f : String → Parser Findings α} {q : Parser Findings α}
    (hf : ∀ name, Follows R (f name)) (hq : Follows R q) : Follows R (do
      if ← skipSymbol .dot then
        let name := (← current).literals
        Parser.advance
        f name
      else q) := by
  intro w a w' hr
  obtain ⟨b, w₁, hb, h⟩ := bind_ok.1 hr
  obtain ⟨hat, hw⟩ := skipIf_ok.1 hb
  cases b with
  | false =>
    obtain rfl := hw
    exact hq h
  | true =>
    obtain ⟨c, hc, rfl⟩ := hw
    obtain ⟨t, _, ht, h⟩ := bind_ok.1 h
    obtain ⟨-, rfl⟩ := current_ok.1 ht
    obtain ⟨u, _, hu, h⟩ := bind_ok.1 h
    obtain ⟨c', hc', rfl⟩ := advance_ok.1 hu
    have hdot : w.cursor.isAtAny [.symbol .dot, .symbol .doubleColon] = true := by
      rw [Cursor.isAtAny_iff] at hat ⊢
      exact List.mem_append_left _ hat
    exact Stepwise.trans (Passing.member hdot hc hc') (hf _ h)

theorem follows_operandChain : Follows R operandChain := by
  refine follows_current.bind fun t => follows_isAt.bind fun _ => .ite ?_ ?_
  · refine follows_skipParentheses.bind fun _ => ?_
    exact follows_skipOperations.bind fun _ => follows_rawFrom _
  · refine follows_primary fun e => ?_
    refine follows_member (f := fun name => do
      if ← skipContinuation then rawFrom t.start else return .property t.literals name)
      (fun name => ?_) ?_
    · exact follows_skipContinuation.bind fun _ => .ite (follows_rawFrom _) (.pure _)
    · refine follows_isAt.bind fun _ => .ite ?_ ?_
      · refine follows_skipParentheses.bind fun _ => ?_
        exact follows_skipOperations.bind fun _ => follows_rawFrom _
      · exact follows_skipContinuation.bind fun _ => .ite (follows_rawFrom _) (.pure _)

omit [Passing R]

/-! ## Places -/

theorem literal_ne {t : Token} :
    (∀ n, literal t ≠ .placeholder n) ∧ ∀ owner name, literal t ≠ .property owner name := by
  unfold literal
  simp only
  split
  · simp
  · simp
  · split <;> simp

theorem skipContinuation_false {w w' : Workspace Findings}
    (h : skipContinuation w = .ok false w') : w' = w := by
  obtain ⟨b, _, hb, h⟩ := bind_ok.1 h
  obtain ⟨-, rfl⟩ := isAtAny_ok.1 hb
  cases b with
  | true =>
    obtain ⟨_, _, -, h⟩ := bind_ok.1 h
    cases h
  | false =>
    obtain ⟨_, _, hc, h⟩ := bind_ok.1 h
    obtain ⟨rfl, rfl⟩ := current_ok.1 hc
    split at h
    · obtain ⟨_, _, -, h⟩ := bind_ok.1 h
      cases h
    · exact (pure_ok.1 h).2.symm

theorem primary_at {e : Expression} {w w₁ : Workspace Findings} {c : Cursor}
    (h : primary w = .ok e w₁) (hc : w₁.cursor.advance = .ok c) : w₁.cursor = w.cursor ∧
      ExpressionAt (fun c n => c = w.cursor ∧ n = w.draft.placeholders) w.cursor c e := by
  simp only [primary, bind_ok, isAt_ok] at h
  obtain ⟨_, _, ⟨rfl, rfl⟩, h⟩ := h
  split at h
  · next hq =>
    obtain ⟨n, _, hn, h⟩ := bind_ok.1 h
    obtain ⟨rfl, rfl⟩ := countPlaceholder_ok.1 hn
    obtain ⟨rfl, rfl⟩ := pure_ok.1 h
    exact ⟨rfl, .placeholder hq ⟨rfl, rfl⟩ hc⟩
  · next hq =>
    obtain ⟨t, _, ht, h⟩ := bind_ok.1 h
    obtain ⟨rfl, rfl⟩ := current_ok.1 ht
    obtain ⟨rfl, rfl⟩ := pure_ok.1 h
    exact ⟨rfl, .literal (by simpa using hq) hc⟩

theorem operandChain_at {e : Expression} {w w' : Workspace Findings}
    (hr : operandChain w = .ok e w') :
    ExpressionAt (fun c n => c = w.cursor ∧ n = w.draft.placeholders) w.cursor w'.cursor e := by
  have hp : Progress (fun _ => False) False False w w' := follows_operandChain hr
  have raw : ∀ {v : Workspace Findings}, rawFrom w.cursor.current.start v = .ok e w' →
      ExpressionAt (fun c n => c = w.cursor ∧ n = w.draft.placeholders) w.cursor w'.cursor e := by
    intro v h
    obtain ⟨rfl, rfl⟩ := rawFrom_ok.1 h
    exact .composite hp.reaches
  simp only [operandChain, bind_ok, current_ok, isAt_ok] at hr
  obtain ⟨_, _, ⟨rfl, rfl⟩, _, _, ⟨rfl, rfl⟩, h⟩ := hr
  split at h
  · simp only [bind_ok] at h
    obtain ⟨_, _, -, _, _, -, h⟩ := h
    exact raw h
  · obtain ⟨x, w₁, hx, h⟩ := bind_ok.1 h
    obtain ⟨_, _, ha, h⟩ := bind_ok.1 h
    obtain ⟨c₁, hc₁, rfl⟩ := advance_ok.1 ha
    obtain ⟨hcursor, hplace⟩ := primary_at hx hc₁
    rw [hcursor] at hc₁
    obtain ⟨b, w₂, hs, h⟩ := bind_ok.1 h
    obtain ⟨hdot, hw₂⟩ := skipIf_ok.1 hs
    cases b with
    | true =>
      obtain ⟨c₂, hc₂, rfl⟩ := hw₂
      obtain ⟨t, _, ht, h⟩ := bind_ok.1 h
      obtain ⟨rfl, rfl⟩ := current_ok.1 ht
      obtain ⟨_, _, ha, h⟩ := bind_ok.1 h
      obtain ⟨c₃, hc₃, rfl⟩ := advance_ok.1 ha
      obtain ⟨continued, w₃, hk, h⟩ := bind_ok.1 h
      cases continued with
      | true => exact raw h
      | false =>
        obtain rfl := skipContinuation_false hk
        obtain ⟨rfl, rfl⟩ := pure_ok.1 h
        exact .member hc₁ (by rwa [Cursor.isAtAny_singleton] at hdot) hc₂ hc₃
    | false =>
      obtain rfl := hw₂
      obtain ⟨called, _, hp, h⟩ := bind_ok.1 h
      obtain ⟨-, rfl⟩ := isAt_ok.1 hp
      cases called with
      | true =>
        obtain ⟨_, _, -, h⟩ := bind_ok.1 h
        obtain ⟨_, _, -, h⟩ := bind_ok.1 h
        exact raw h
      | false =>
        obtain ⟨continued, w₃, hk, h⟩ := bind_ok.1 h
        cases continued with
        | true => exact raw h
        | false =>
          obtain rfl := skipContinuation_false hk
          obtain ⟨rfl, rfl⟩ := pure_ok.1 h
          exact hplace

theorem operandChain_property {owner name : String} {w w' : Workspace Findings}
    (h : operandChain w = .ok (.property owner name) w') : owner = w.cursor.current.literals ∧
      ∃ c, w.cursor.advance = .ok c ∧ c.isAt (.symbol .dot) = true ∧ c.Reaches w'.cursor := by
  generalize he : Expression.property owner name = e at h
  cases operandChain_at h with
  | placeholder => cases he
  | literal => exact (literal_ne.2 owner name he.symm).elim
  | member hc hdot hc₁ hc₂ =>
    cases he
    exact ⟨rfl, _, hc, hdot, (Cursor.Reaches.single hc₁).trans (.single hc₂)⟩
  | composite => cases he

/-- An expression is an operand chain; the owner of a property may become a place to edit. -/
theorem expression_ok {e : Expression} {w w' : Workspace Findings}
    (h : expression w = .ok e w') : ∃ w₁, operandChain w = .ok e w₁ ∧
      (w' = w₁ ∨ (∃ owner name, e = .property owner name) ∧ w' = ⟨w₁.cursor,
        w₁.draft.addEdit (.table w.cursor.current.start w.cursor.current.literals)⟩) := by
  simp only [expression, bind_ok, current_ok] at h
  obtain ⟨_, _, ⟨rfl, rfl⟩, x, w₁, hx, h⟩ := h
  split at h
  · obtain ⟨rfl, -⟩ := operandChain_property hx
    simp only [bind_ok, draft_ok] at h
    obtain ⟨_, _, ⟨rfl, rfl⟩, h⟩ := h
    split at h
    · obtain ⟨_, _, hm, h⟩ := bind_ok.1 h
      obtain rfl := modifyDraft_ok.1 hm
      obtain ⟨rfl, rfl⟩ := pure_ok.1 h
      exact ⟨w₁, hx, Or.inr ⟨⟨_, _, rfl⟩, rfl⟩⟩
    · obtain ⟨rfl, rfl⟩ := pure_ok.1 h
      exact ⟨w₁, hx, Or.inl rfl⟩
  · obtain ⟨rfl, rfl⟩ := pure_ok.1 h
    exact ⟨_, hx, Or.inl rfl⟩

def KeepsEdits (w w' : Workspace Findings) : Prop := w'.draft.edits = w.draft.edits

instance : Passing KeepsEdits where
  refl _ := rfl
  trans h₁ h₂ := h₂.trans h₁
  advance _ _ := rfl
  placeholder _ _ := rfl
  member _ _ _ := rfl

class Expressive (R : Workspace Findings → Workspace Findings → Prop) : Prop extends Passing R where
  owner {w w₁ : Workspace Findings} {c : Cursor} : w.cursor.advance = .ok c →
    c.isAt (.symbol .dot) = true → c.Reaches w₁.cursor → KeepsEdits w w₁ → R w w₁ →
    R w ⟨w₁.cursor, w₁.draft.addEdit (.table w.cursor.current.start w.cursor.current.literals)⟩

theorem follows_expression [Expressive R] : Follows R expression := by
  intro w e w' h
  obtain ⟨w₁, hx, hw⟩ := expression_ok h
  rcases hw with rfl | ⟨⟨owner, name, rfl⟩, rfl⟩
  · exact follows_operandChain hx
  · obtain ⟨-, c, hc, hdot, hreach⟩ := operandChain_property hx
    exact Expressive.owner hc hdot hreach (follows_operandChain hx) (follows_operandChain hx)

instance : Expressive (Progress N T C) where
  owner _ _ _ _ h := .tableEdit h

theorem expression_at {e : Expression} {w w' : Workspace Findings}
    (h : expression w = .ok e w') :
    ExpressionAt (Moves N w.cursor w.draft.placeholders) w.cursor w'.cursor e := by
  obtain ⟨w₁, hx, hw⟩ := expression_ok h
  have hcursor : w'.cursor = w₁.cursor := by rcases hw with rfl | ⟨-, rfl⟩ <;> rfl
  rw [hcursor]
  refine (operandChain_at hx).mono fun c n hc => ?_
  obtain ⟨rfl, rfl⟩ := hc
  exact .refl _ _

theorem expression_placeholder {n : ℕ} {w w' : Workspace Findings}
    (h : expression w = .ok (.placeholder n) w') :
    w.cursor.isAt (.symbol .question) = true ∧ n = w.draft.placeholders := by
  obtain ⟨w₁, hx, -⟩ := expression_ok h
  generalize he : Expression.placeholder n = e at hx
  cases operandChain_at hx with
  | placeholder hq hn =>
    cases he
    exact ⟨hq, hn.2⟩
  | literal => exact (literal_ne.1 n he.symm).elim
  | member => cases he
  | composite => cases he

theorem Parser.Separated.expressionsAt {σ : Type} [HasFindings σ] {t : TokenType}
    {item : Parser σ Expression} {xs : List Expression} {w w' : Workspace σ}
    (ht : t ≠ .symbol .question)
    (hitem : ∀ {w w' : Workspace σ} {e : Expression}, item w = .ok e w' →
      Moves N w.cursor (findings w.draft).placeholders w'.cursor (findings w'.draft).placeholders ∧
        ExpressionAt (Moves N w.cursor (findings w.draft).placeholders) w.cursor w'.cursor e)
    (h : Separated [t] item w xs w') :
    SeparatedAt (ExpressionAt (Moves N w.cursor (findings w.draft).placeholders)) (some t) w.cursor
      w'.cursor xs := by
  induction h with
  | last hx => exact .last (hitem hx).2
  | @next w w₁ w' c x xs hx hat hc _ ih =>
    obtain ⟨hmoves, hplace⟩ := hitem hx
    rw [Cursor.isAtAny_singleton] at hat
    have hbehind : Moves N w.cursor (findings w.draft).placeholders c
        (findings w₁.draft).placeholders := hmoves.trans (.token (isAt_eq_false hat ht) hc)
    exact .next hplace (congrArg some (Cursor.isAt_iff.1 hat).symm) hc
      (ih.mono fun _ _ _ h => h.mono fun _ _ => hbehind.trans)

end SqlFront

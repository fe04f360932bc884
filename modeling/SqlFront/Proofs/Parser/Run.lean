import Mathlib
import SqlFront.Parser

/-!
# Successful runs of a parser

Every primitive has one equation that says when it succeeds and with what. A repetition has an
induction rule: an invariant that each round keeps holds when the repetition ends.
-/

set_option autoImplicit false

namespace SqlFront.Parser

variable {σ τ α β : Type} {w w' w'' : Workspace σ}

/-! ## Composition -/

theorem bind_ok {p : Parser σ α} {f : α → Parser σ β} {b : β} :
    (p >>= f) w = .ok b w'' ↔ ∃ a w', p w = .ok a w' ∧ f a w' = .ok b w'' := by
  change EStateM.bind p f w = _ ↔ _
  unfold EStateM.bind
  cases p w <;> simp

theorem bind_run {p : Parser σ α} {f : α → Parser σ β} {a : α} (h : p w = .ok a w') :
    (p >>= f) w = f a w' := by
  change EStateM.bind p f w = _
  unfold EStateM.bind
  rw [h]

theorem bind_error {p : Parser σ α} {f : α → Parser σ β} {fault : Fault}
    (h : p w = .error fault w') : (p >>= f) w = .error fault w' := by
  change EStateM.bind p f w = _
  unfold EStateM.bind
  rw [h]

theorem pure_ok {a b : α} : (pure a : Parser σ α) w = .ok b w' ↔ a = b ∧ w = w' := by
  change EStateM.Result.ok a w = _ ↔ _
  simp

theorem throw_ok {e : Fault} {a : α} : (throw e : Parser σ α) w = .ok a w' ↔ False := by
  constructor
  · intro h
    cases h
  · exact False.elim

theorem discard_ok {p : Parser σ α} {u : PUnit} :
    (discard p) w = .ok u w' ↔ ∃ a, p w = .ok a w' := by
  change EStateM.map (Function.const _ PUnit.unit) p w = _ ↔ _
  unfold EStateM.map
  cases p w <;> simp

/-! ## Cursor and draft -/

theorem cursor_ok {c : Cursor} :
    (cursor : Parser σ Cursor) w = .ok c w' ↔ w.cursor = c ∧ w = w' := by
  change EStateM.Result.ok w.cursor w = _ ↔ _
  simp

theorem draft_ok {s : σ} : (draft : Parser σ σ) w = .ok s w' ↔ w.draft = s ∧ w = w' := by
  change EStateM.Result.ok w.draft w = _ ↔ _
  simp

theorem modifyDraft_ok {f : σ → σ} {u : Unit} :
    modifyDraft f w = .ok u w' ↔ w' = ⟨w.cursor, f w.draft⟩ := by
  change EStateM.Result.ok PUnit.unit (Workspace.mk w.cursor (f w.draft)) = _ ↔ _
  simp [eq_comm]

theorem failAt_ok {f : Cursor → Fault} {a : α} :
    (failAt f : Parser σ α) w = .ok a w' ↔ False := by
  constructor
  · intro h
    cases h
  · exact False.elim

theorem current_ok {t : Token} :
    (current : Parser σ Token) w = .ok t w' ↔ w.cursor.current = t ∧ w = w' := by
  change EStateM.Result.ok w.cursor.current w = _ ↔ _
  simp

theorem grammar_ok {g : Grammar} :
    (grammar : Parser σ Grammar) w = .ok g w' ↔ w.cursor.dialect.grammar = g ∧ w = w' := by
  change EStateM.Result.ok w.cursor.dialect.grammar w = _ ↔ _
  simp

theorem onFindings_ok [HasFindings σ] {p : Parser Findings α} {a : α} :
    (onFindings p : Parser σ α) w = .ok a w' ↔
      ∃ c f, p ⟨w.cursor, findings w.draft⟩ = .ok a ⟨c, f⟩ ∧ w' = ⟨c, setFindings w.draft f⟩ := by
  unfold onFindings
  cases h : p ⟨w.cursor, findings w.draft⟩ with
  | ok b v =>
    constructor
    · rintro ⟨⟩
      exact ⟨_, _, rfl, rfl⟩
    · rintro ⟨c, f, ⟨⟩, rfl⟩
      rfl
  | error e v => simp

theorem inside_ok {own : τ} {p : Parser τ α} {r : τ × α} :
    (inside own p : Parser σ (τ × α)) w = .ok r w' ↔
      ∃ c, p ⟨w.cursor, own⟩ = .ok r.2 ⟨c, r.1⟩ ∧ w' = ⟨c, w.draft⟩ := by
  unfold inside
  cases h : p ⟨w.cursor, own⟩ with
  | ok b v =>
    constructor
    · rintro ⟨⟩
      exact ⟨_, rfl, rfl⟩
    · rintro ⟨c, hb, rfl⟩
      cases hb
      rfl
  | error e v => simp

/-! ## Single tokens -/

theorem advance_ok {u : Unit} :
    advance w = .ok u w' ↔ ∃ c, w.cursor.advance = .ok c ∧ w' = ⟨c, w.draft⟩ := by
  simp only [advance, bind_ok, cursor_ok]
  constructor
  · rintro ⟨c, w₁, ⟨rfl, rfl⟩, h⟩
    cases hc : w.cursor.advance with
    | ok c =>
      rw [hc] at h
      cases h
      exact ⟨c, rfl, rfl⟩
    | error e =>
      rw [hc] at h
      cases h
  · rintro ⟨c, hc, rfl⟩
    refine ⟨_, _, ⟨rfl, rfl⟩, ?_⟩
    rw [hc]
    rfl

theorem peekType_ok {t : TokenType} :
    peekType w = .ok t w' ↔ (∃ x, w.cursor.peek = .ok x ∧ x.type = t) ∧ w' = w := by
  simp only [peekType, bind_ok, cursor_ok]
  constructor
  · rintro ⟨c, w₁, ⟨rfl, rfl⟩, h⟩
    cases hc : w.cursor.peek with
    | ok x =>
      rw [hc] at h
      cases h
      exact ⟨⟨x, rfl, rfl⟩, rfl⟩
    | error e =>
      rw [hc] at h
      cases h
  · rintro ⟨⟨x, hx, rfl⟩, rfl⟩
    refine ⟨_, _, ⟨rfl, rfl⟩, ?_⟩
    rw [hx]
    rfl

theorem isAhead_ok {t : TokenType} {b : Bool} :
    isAhead t w = .ok b w' ↔ (∃ x, w.cursor.peek = .ok x ∧ (x.type == t) = b) ∧ w' = w := by
  simp only [isAhead, bind_ok, peekType_ok, pure_ok]
  constructor
  · rintro ⟨_, _, ⟨⟨x, hx, rfl⟩, rfl⟩, rfl, rfl⟩
    exact ⟨⟨x, hx, rfl⟩, rfl⟩
  · rintro ⟨⟨x, hx, rfl⟩, rfl⟩
    exact ⟨_, _, ⟨⟨x, hx, rfl⟩, rfl⟩, rfl, rfl⟩

theorem isAt_ok {t : TokenType} {b : Bool} :
    isAt t w = .ok b w' ↔ w.cursor.isAt t = b ∧ w = w' := by
  change EStateM.Result.ok (w.cursor.isAt t) w = _ ↔ _
  simp

theorem isAtAny_ok {ts : List TokenType} {b : Bool} :
    isAtAny ts w = .ok b w' ↔ w.cursor.isAtAny ts = b ∧ w = w' := by
  change EStateM.Result.ok (w.cursor.isAtAny ts) w = _ ↔ _
  simp

theorem skipIf_ok {ts : List TokenType} {b : Bool} :
    skipIf ts w = .ok b w' ↔ w.cursor.isAtAny ts = b ∧
      if b then ∃ c, w.cursor.advance = .ok c ∧ w' = ⟨c, w.draft⟩ else w' = w := by
  simp only [skipIf, bind_ok, isAtAny_ok]
  constructor
  · rintro ⟨_, _, ⟨rfl, rfl⟩, h⟩
    cases ht : w.cursor.isAtAny ts
    · rw [ht] at h
      cases h
      exact ⟨rfl, rfl⟩
    · rw [ht, if_pos rfl] at h
      simp only [bind_ok, advance_ok, pure_ok] at h
      obtain ⟨_, _, ⟨c, hc, rfl⟩, rfl, rfl⟩ := h
      exact ⟨rfl, c, hc, rfl⟩
  · rintro ⟨rfl, h⟩
    refine ⟨_, _, ⟨rfl, rfl⟩, ?_⟩
    cases ht : w.cursor.isAtAny ts
    · rw [ht] at h
      exact pure_ok.2 ⟨rfl, h.symm⟩
    · rw [ht, if_pos rfl] at h
      obtain ⟨c, hc, rfl⟩ := h
      exact bind_ok.2 ⟨(), _, advance_ok.2 ⟨c, hc, rfl⟩, rfl⟩

theorem expect_ok {t : TokenType} {u : Unit} :
    expect t w = .ok u w' ↔
      w.cursor.isAt t = true ∧ ∃ c, w.cursor.advance = .ok c ∧ w' = ⟨c, w.draft⟩ := by
  simp only [expect, bind_ok, isAt_ok]
  constructor
  · rintro ⟨_, _, ⟨rfl, rfl⟩, h⟩
    split at h
    · next ht => exact ⟨ht, advance_ok.1 h⟩
    · exact (failAt_ok.1 h).elim
  · rintro ⟨ht, h⟩
    refine ⟨_, _, ⟨rfl, rfl⟩, ?_⟩
    rw [if_pos ht]
    exact advance_ok.2 h

theorem refuseIf_ok {ts : List TokenType} {u : Unit} :
    refuseIf ts w = .ok u w' ↔ w.cursor.isAtAny ts = false ∧ w' = w := by
  simp only [refuseIf, bind_ok, isAtAny_ok]
  constructor
  · rintro ⟨_, _, ⟨rfl, rfl⟩, h⟩
    split at h
    · exact (failAt_ok.1 h).elim
    · next ht =>
      cases h
      exact ⟨by simpa using ht, rfl⟩
  · rintro ⟨ht, rfl⟩
    refine ⟨_, _, ⟨rfl, rfl⟩, ?_⟩
    rw [ht]
    rfl

theorem isAtSubQuery_ok {b : Bool} :
    isAtSubQuery w = .ok b w' ↔ w' = w ∧
      if w.cursor.isAt (.symbol .leftParen) then
        ∃ x, w.cursor.peek = .ok x ∧ (x.type == .keyword .SELECT) = b
      else b = false := by
  simp only [isAtSubQuery, bind_ok, isAt_ok]
  constructor
  · rintro ⟨_, _, ⟨rfl, rfl⟩, h⟩
    split at h
    · next hp =>
      rw [if_pos hp]
      exact ⟨(isAhead_ok.1 h).2, (isAhead_ok.1 h).1⟩
    · next hp =>
      obtain ⟨rfl, rfl⟩ := pure_ok.1 h
      rw [if_neg hp]
      exact ⟨rfl, rfl⟩
  · rintro ⟨rfl, h⟩
    refine ⟨_, _, ⟨rfl, rfl⟩, ?_⟩
    split at h
    · next hp =>
      rw [if_pos hp]
      exact isAhead_ok.2 ⟨h, rfl⟩
    · next hp =>
      rw [if_neg hp]
      exact pure_ok.2 ⟨h.symm, rfl⟩

def Ensures (w : Workspace σ) (p : Parser σ α) (Q : α → Workspace σ → Prop) : Prop :=
  ∀ ⦃a : α⦄ ⦃w' : Workspace σ⦄, p w = .ok a w' → Q a w'

theorem Ensures.atCurrent {g : Token → Parser σ α} {Q : α → Workspace σ → Prop}
    (h : Ensures w (g w.cursor.current) Q) : Ensures w (current >>= g) Q := by
  intro a w' hg
  obtain ⟨_, _, ⟨rfl, rfl⟩, hg⟩ := bind_ok.1 hg
  exact h hg

/-! ## Repetition -/

theorem repeatFor_induct {step : α → Parser σ (α ⊕ β)} {I : α → Workspace σ → Prop}
    {Q : β → Workspace σ → Prop}
    (next : ∀ {a a' w w'}, I a w → step a w = .ok (.inl a') w' → I a' w')
    (done : ∀ {a b w w'}, I a w → step a w = .ok (.inr b) w' → Q b w')
    {n : ℕ} {a : α} {b : β} (hI : I a w) (h : repeatFor step n a w = .ok b w') : Q b w' := by
  induction n generalizing a w with
  | zero => exact (throw_ok.1 h).elim
  | succ n ih =>
    obtain ⟨r, w₁, hr, h⟩ := bind_ok.1 h
    cases r with
    | inl a' => exact ih (next hI hr) h
    | inr b' =>
      obtain ⟨rfl, rfl⟩ := pure_ok.1 h
      exact done hI hr

theorem repeatFrom_induct {step : α → Parser σ (α ⊕ β)} {I : α → Workspace σ → Prop}
    {Q : β → Workspace σ → Prop}
    (next : ∀ {a a' w w'}, I a w → step a w = .ok (.inl a') w' → I a' w')
    (done : ∀ {a b w w'}, I a w → step a w = .ok (.inr b) w' → Q b w')
    {a : α} {b : β} (hI : I a w) (h : repeatFrom a step w = .ok b w') : Q b w' := by
  simp only [repeatFrom, bind_ok, cursor_ok] at h
  obtain ⟨_, _, ⟨rfl, rfl⟩, h⟩ := h
  exact repeatFor_induct next done hI h

theorem whileM_induct {condition : Parser σ Bool} {body : Parser σ Unit} {I Q : Workspace σ → Prop}
    (next : ∀ {w w₁ w₂ u}, I w → condition w = .ok true w₁ → body w₁ = .ok u w₂ → I w₂)
    (done : ∀ {w w₁}, I w → condition w = .ok false w₁ → Q w₁)
    {u : Unit} (hI : I w) (h : whileM condition body w = .ok u w') : Q w' := by
  refine repeatFrom_induct (I := fun _ => I) (Q := fun _ => Q) ?_ ?_ hI h
  · intro _ _ w w₂ hI h
    obtain ⟨b, w₁, hb, h⟩ := bind_ok.1 h
    cases b with
    | false => cases h
    | true =>
      obtain ⟨_, _, hbody, h⟩ := bind_ok.1 h
      cases h
      exact next hI hb hbody
  · intro _ _ w w₂ hI h
    obtain ⟨b, w₁, hb, h⟩ := bind_ok.1 h
    cases b with
    | true =>
      obtain ⟨_, _, _, h⟩ := bind_ok.1 h
      cases h
    | false =>
      cases h
      exact done hI hb

/-- `I` holds before an item and `M` behind one. -/
theorem separated_induct {separators : List TokenType} {item : Parser σ α}
    {I M : List α → Workspace σ → Prop}
    (read : ∀ {before x w w'}, I before w → item w = .ok x w' → M (before ++ [x]) w')
    (next : ∀ {xs w c}, M xs w → w.cursor.isAtAny separators = true →
      w.cursor.advance = .ok c → I xs ⟨c, w.draft⟩)
    {xs : List α} (hI : I [] w) (h : separated separators item w = .ok xs w') :
    M xs w' ∧ w'.cursor.isAtAny separators = false := by
  refine repeatFrom_induct (I := I)
    (Q := fun xs w => M xs w ∧ w.cursor.isAtAny separators = false) ?_ ?_ hI h
  · intro before _ w w₂ hI h
    obtain ⟨x, w₁, hx, h⟩ := bind_ok.1 h
    obtain ⟨b, w₃, hb, h⟩ := bind_ok.1 h
    cases b with
    | false => cases h
    | true =>
      cases h
      obtain ⟨hat, c, hc, rfl⟩ := skipIf_ok.1 hb
      exact next (read hI hx) hat hc
  · intro before _ w w₂ hI h
    obtain ⟨x, w₁, hx, h⟩ := bind_ok.1 h
    obtain ⟨b, w₃, hb, h⟩ := bind_ok.1 h
    cases b with
    | true => cases h
    | false =>
      cases h
      obtain ⟨hat, rfl⟩ := skipIf_ok.1 hb
      exact ⟨read hI hx, hat⟩

inductive Separated (separators : List TokenType) (item : Parser σ α) :
    Workspace σ → List α → Workspace σ → Prop
  | last {w w' : Workspace σ} {x : α} : item w = .ok x w' →
      w'.cursor.isAtAny separators = false → Separated separators item w [x] w'
  | next {w w₁ w' : Workspace σ} {c : Cursor} {x : α} {xs : List α} : item w = .ok x w₁ →
      w₁.cursor.isAtAny separators = true → w₁.cursor.advance = .ok c →
      Separated separators item ⟨c, w₁.draft⟩ xs w' → Separated separators item w (x :: xs) w'

theorem separated_run {separators : List TokenType} {item : Parser σ α} {xs : List α}
    (h : separated separators item w = .ok xs w') : Separated separators item w xs w' := by
  obtain ⟨_, _, hc, h⟩ := bind_ok.1 h
  obtain ⟨rfl, rfl⟩ := cursor_ok.1 hc
  -- The items that have been read before stand in front of the others.
  suffices hs : ∀ n before w xs, repeatFor (fun before => do
      let x ← item
      if ← skipIf separators then return .inl (before ++ [x]) else return .inr (before ++ [x]))
      n before w = .ok xs w' → ∃ ys, xs = before ++ ys ∧ Separated separators item w ys w' by
    obtain ⟨ys, rfl, hy⟩ := hs _ _ _ _ h
    exact hy
  intro n
  induction n with
  | zero => exact fun _ _ _ h => (throw_ok.1 h).elim
  | succ n ih =>
    intro before w xs h
    obtain ⟨r, w₂, hstep, h⟩ := bind_ok.1 h
    obtain ⟨x, w₁, hx, hstep⟩ := bind_ok.1 hstep
    obtain ⟨b, w₃, hb, hr⟩ := bind_ok.1 hstep
    obtain ⟨hat, hw⟩ := skipIf_ok.1 hb
    cases b with
    | true =>
      obtain ⟨c, hc, rfl⟩ := hw
      obtain ⟨rfl, rfl⟩ := pure_ok.1 hr
      obtain ⟨ys, rfl, hy⟩ := ih _ _ _ h
      exact ⟨x :: ys, by simp, .next hx hat hc hy⟩
    | false =>
      obtain rfl := hw
      obtain ⟨rfl, rfl⟩ := pure_ok.1 hr
      obtain ⟨rfl, rfl⟩ := pure_ok.1 h
      exact ⟨[x], rfl, .last hx hat⟩

/-- What each token that is skipped keeps holds behind all of them. -/
theorem skipUntil_induct {ts : List TokenType} {I : Workspace σ → Prop}
    (next : ∀ {w c}, I w → w.cursor.isAtAny ts = false → w.cursor.advance = .ok c →
      I ⟨c, w.draft⟩)
    {u : Unit} (hI : I w) (h : skipUntil ts w = .ok u w') : I w' := by
  refine whileM_induct (I := I) (Q := I) ?_ ?_ hI h
  · intro w w₁ w₂ u hI hc ha
    simp only [bind_ok, isAtAny_ok, cursor_ok, pure_ok] at hc
    obtain ⟨_, _, ⟨rfl, rfl⟩, _, _, ⟨rfl, rfl⟩, hb, rfl⟩ := hc
    obtain ⟨c, hc, rfl⟩ := advance_ok.1 ha
    simp only [Bool.and_eq_true, Bool.not_eq_true'] at hb
    exact next hI hb.1 hc
  · intro w w₁ hI hc
    simp only [bind_ok, isAtAny_ok, cursor_ok, pure_ok] at hc
    obtain ⟨_, _, ⟨rfl, rfl⟩, _, _, ⟨rfl, rfl⟩, -, rfl⟩ := hc
    exact hI

end SqlFront.Parser

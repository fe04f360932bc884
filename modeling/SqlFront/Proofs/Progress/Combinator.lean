import SqlFront.Proofs.Progress.Basic

/-!
# Parsers that follow a course

A parser follows a relation when each of its successful runs is related by it. Sequences, choices
and repetitions of parsers that follow a relation follow it too, and so do the primitives that do
not move over a placeholder.
-/

set_option autoImplicit false

namespace SqlFront

open SqlFront.Parser

variable {N : Cursor → Prop} {T C : Prop} {σ α β : Type}

theorem not_question_of_mem {c : Cursor} {ts : List TokenType} (hq : .symbol .question ∉ ts)
    (h : c.isAtAny ts = true) : c.isAt (.symbol .question) = false := by
  rw [Cursor.isAtAny_iff] at h
  simp only [Cursor.isAt, beq_eq_false_iff_ne]
  intro he
  exact hq (he ▸ h)

theorem question_not_mem_keywords (ks : List Keyword) :
    TokenType.symbol .question ∉ keywordTypes ks := by
  simp [keywordTypes]

theorem not_question_of_keyword {c : Cursor} {k : Keyword} (h : c.isAt (.keyword k) = true) :
    c.current.type ≠ .symbol .question := by
  intro hq
  rw [Cursor.isAt_iff, hq] at h
  cases h

theorem skipIf_single_ok {t : TokenType} {b : Bool} {w w' : Workspace σ} :
    skipIf [t] w = .ok b w' ↔ w.cursor.isAt t = b ∧
      if b then ∃ c, w.cursor.advance = .ok c ∧ w' = ⟨c, w.draft⟩ else w' = w := by
  rw [skipIf_ok, Cursor.isAtAny_singleton]

def FollowsAt (R : Workspace σ → Workspace σ → Prop) (w : Workspace σ) (p : Parser σ α) : Prop :=
  ∀ ⦃a : α⦄ ⦃w' : Workspace σ⦄, p w = .ok a w' → R w w'

def Follows (R : Workspace σ → Workspace σ → Prop) (p : Parser σ α) : Prop :=
  ∀ ⦃w : Workspace σ⦄, FollowsAt R w p

variable {R : Workspace σ → Workspace σ → Prop} {p q : Parser σ α} {f : α → Parser σ β}
  {w : Workspace σ}

theorem Follows.throw (e : Fault) : Follows R (MonadExcept.throw e : Parser σ α) :=
  fun _ _ _ h => (throw_ok.1 h).elim

theorem Follows.failAt (g : Cursor → Fault) : Follows R (failAt g : Parser σ α) :=
  fun _ _ _ h => (failAt_ok.1 h).elim

theorem Follows.discard (hp : Follows R p) : Follows R (discard p) := by
  intro w u w' h
  obtain ⟨a, h⟩ := discard_ok.1 h
  exact hp h

theorem Follows.at (h : Follows R p) (w : Workspace σ) : FollowsAt R w p := @h w

/-- What follows may be chosen by the current token. -/
theorem Follows.atCurrent {g : Token → Parser σ α}
    (h : ∀ w : Workspace σ, FollowsAt R w (g w.cursor.current)) : Follows R (current >>= g) := by
  intro w a w' hg
  obtain ⟨_, _, ⟨rfl, rfl⟩, hg⟩ := bind_ok.1 hg
  exact h w hg

theorem Follows.ifAt {t : TokenType} (hp : ∀ w, w.cursor.isAt t = true → FollowsAt R w p)
    (hq : ∀ w, w.cursor.isAt t = false → FollowsAt R w q) :
    Follows R (do if ← isAt t then p else q) := by
  intro w a w' h
  obtain ⟨_, _, ⟨rfl, rfl⟩, h⟩ := bind_ok.1 h
  cases hat : w.cursor.isAt t with
  | true => exact hp w hat (by rwa [hat] at h)
  | false => exact hq w hat (by rwa [hat] at h)

theorem FollowsAt.ite {b : Prop} [Decidable b] (h₁ : b → FollowsAt R w p)
    (h₂ : ¬b → FollowsAt R w q) : FollowsAt R w (if b then p else q) := by
  split
  · next h => exact h₁ h
  · next h => exact h₂ h

theorem Follows.ite {b : Prop} [Decidable b] {q₁ q₂ : Parser σ α} (h₁ : Follows R q₁)
    (h₂ : Follows R q₂) : Follows R (if b then q₁ else q₂) := by
  split
  · exact h₁
  · exact h₂

section

variable [HasFindings σ] [Course N T C R]

include N T C

/-- Findings are read in a draft as they are read alone. -/
theorem Follows.onFindings {q : Parser Findings α} (hq : Follows (Progress N T C) q) :
    Follows R (onFindings q : Parser σ α) := by
  intro w a w' h
  obtain ⟨c, f, hq', rfl⟩ := onFindings_ok.1 h
  exact Course.lift (hq hq')

variable [LawfulFindings σ]

theorem Course.refl (w : Workspace σ) : R w w := by
  have h := Course.lift (R := R) (Progress.refl w.found)
  rwa [LawfulFindings.set_findings] at h

theorem Course.advance {w : Workspace σ} {c : Cursor}
    (hq : w.cursor.isAt (.symbol .question) = false) (h : w.cursor.advance = .ok c) :
    R w ⟨c, w.draft⟩ := by
  have h := Course.lift (R := R) (w := w) (Progress.advance (f := findings w.draft) hq h)
  rwa [LawfulFindings.set_findings] at h

end

class Stepwise (R : Workspace σ → Workspace σ → Prop) : Prop where
  refl (w : Workspace σ) : R w w
  trans {w w₁ w₂ : Workspace σ} : R w w₁ → R w₁ w₂ → R w w₂
  advance {w : Workspace σ} {c : Cursor} : w.cursor.isAt (.symbol .question) = false →
    w.cursor.advance = .ok c → R w ⟨c, w.draft⟩

instance [HasFindings σ] [LawfulFindings σ] [Course N T C R] : Stepwise R where
  refl := Course.refl
  trans := Course.trans
  advance := Course.advance

variable [Stepwise R]

theorem FollowsAt.bind (hp : FollowsAt R w p) (hf : ∀ a, Follows R (f a)) :
    FollowsAt R w (p >>= f) := by
  intro b w'' h
  obtain ⟨a, w', ha, hb⟩ := bind_ok.1 h
  exact Stepwise.trans (hp ha) (hf a hb)

theorem Follows.bind (hp : Follows R p) (hf : ∀ a, Follows R (f a)) : Follows R (p >>= f) :=
  fun w => FollowsAt.bind (@hp w) hf

/-- A token that is no placeholder is passed. -/
theorem FollowsAt.advance (hq : w.cursor.current.type ≠ .symbol .question) :
    FollowsAt R w Parser.advance := by
  intro u w' h
  obtain ⟨c, hc, rfl⟩ := advance_ok.1 h
  exact Stepwise.advance (by simpa [Cursor.isAt] using hq) hc

/-! ## Sequence, choice and repetition -/

theorem Follows.pure (a : α) : Follows R (Pure.pure a : Parser σ α) := by
  intro w b w' h
  obtain ⟨-, rfl⟩ := pure_ok.1 h
  exact Stepwise.refl w

theorem Follows.repeatFrom {a : α} {step : α → Parser σ (α ⊕ β)} (h : ∀ a, Follows R (step a)) :
    Follows R (repeatFrom a step) := by
  intro w b w' hr
  refine repeatFrom_induct (I := fun _ v => R w v) (Q := fun _ v => R w v) ?_ ?_
    (Stepwise.refl w) hr
  · exact fun hI hs => Stepwise.trans hI (h _ hs)
  · exact fun hI hs => Stepwise.trans hI (h _ hs)

theorem Follows.whileM {condition : Parser σ Bool} {body : Parser σ Unit}
    (hc : Follows R condition) (hb : Follows R body) : Follows R (whileM condition body) := by
  refine Follows.repeatFrom fun _ => hc.bind fun b => ?_
  exact .ite (hb.bind fun _ => .pure _) (.pure _)

/-! ## Looking at the current token -/

theorem follows_cursor : Follows R (cursor : Parser σ Cursor) :=
  fun w _ _ h => (cursor_ok.1 h).2 ▸ Stepwise.refl (R := R) w

theorem follows_draft : Follows R (draft : Parser σ σ) :=
  fun w _ _ h => (draft_ok.1 h).2 ▸ Stepwise.refl (R := R) w

theorem follows_current : Follows R (current : Parser σ Token) :=
  fun w _ _ h => (current_ok.1 h).2 ▸ Stepwise.refl (R := R) w

theorem follows_grammar : Follows R (grammar : Parser σ Grammar) :=
  fun w _ _ h => (grammar_ok.1 h).2 ▸ Stepwise.refl (R := R) w

theorem follows_isAt {t : TokenType} : Follows R (isAt t : Parser σ Bool) :=
  fun w _ _ h => (isAt_ok.1 h).2 ▸ Stepwise.refl (R := R) w

theorem follows_isAtAny {ts : List TokenType} : Follows R (isAtAny ts : Parser σ Bool) :=
  fun w _ _ h => (isAtAny_ok.1 h).2 ▸ Stepwise.refl (R := R) w

theorem follows_isAhead {t : TokenType} : Follows R (isAhead t : Parser σ Bool) :=
  fun w _ _ h => (isAhead_ok.1 h).2 ▸ Stepwise.refl (R := R) w

theorem follows_refuseIf {ts : List TokenType} : Follows R (refuseIf ts : Parser σ Unit) :=
  fun w _ _ h => (refuseIf_ok.1 h).2 ▸ Stepwise.refl (R := R) w

theorem follows_isAtSubQuery : Follows R (isAtSubQuery : Parser σ Bool) :=
  follows_isAt.bind fun _ => .ite follows_isAhead (.pure _)

/-! ## Skipping -/

theorem follows_skipIf {ts : List TokenType} (hq : .symbol .question ∉ ts) :
    Follows R (skipIf ts : Parser σ Bool) := by
  intro w b w' h
  obtain ⟨hb, h⟩ := skipIf_ok.1 h
  cases b with
  | false => exact h ▸ Stepwise.refl (R := R) w
  | true =>
    obtain ⟨c, hc, rfl⟩ := h
    exact Stepwise.advance (not_question_of_mem hq hb) hc

theorem follows_skipKeywords (ks : List Keyword) :
    Follows R (skipIf (keywordTypes ks) : Parser σ Bool) :=
  follows_skipIf (question_not_mem_keywords ks)

theorem follows_skipKeyword (k : Keyword) : Follows R (skipKeyword k : Parser σ Bool) :=
  follows_skipKeywords [k]

theorem follows_skipSymbol {s : Symbol} (hs : s ≠ .question) :
    Follows R (skipSymbol s : Parser σ Bool) :=
  follows_skipIf (by simpa using hs.symm)

theorem follows_expect {t : TokenType} (ht : t ≠ .symbol .question) :
    Follows R (expect t : Parser σ Unit) := by
  intro w u w' h
  obtain ⟨hat, c, hc, rfl⟩ := expect_ok.1 h
  refine Stepwise.advance ?_ hc
  rw [Cursor.isAt_iff] at hat
  simpa [Cursor.isAt, hat] using ht

theorem follows_expectKeyword (k : Keyword) : Follows R (expectKeyword k : Parser σ Unit) :=
  follows_expect (by simp)

theorem follows_expectSymbol {s : Symbol} (hs : s ≠ .question) :
    Follows R (expectSymbol s : Parser σ Unit) :=
  follows_expect (by simpa using hs)

theorem follows_skipAll (ks : List Keyword) :
    Follows R (skipAll (keywordTypes ks) : Parser σ Unit) :=
  .whileM (follows_skipKeywords ks) (.pure _)

theorem Follows.separated {ts : List TokenType} (hq : .symbol .question ∉ ts)
    (hp : Follows R p) : Follows R (separated ts p) := by
  refine Follows.repeatFrom fun before => hp.bind fun x => ?_
  exact (follows_skipIf hq).bind fun b => .ite (.pure _) (.pure _)

theorem Follows.commaSeparated (hp : Follows R p) : Follows R (commaSeparated p) :=
  Follows.separated (by simp) hp

end SqlFront

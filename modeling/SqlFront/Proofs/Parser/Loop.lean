import SqlFront.Proofs.Parser.Settling

/-!
# Loops over known tokens

A loop takes a turn where its condition holds and ends where it fails. With the tokens known, it is
followed turn by turn; a turn needs a token, so the number of turns that are left suffices.
-/

set_option autoImplicit false

namespace SqlFront.Parser

variable {σ : Type} {w : Workspace σ} {ts us more : List Token}

section Turns

variable {condition : Parser σ Bool} {body : Parser σ Unit} {Q : Unit → Workspace σ → Prop}
  {F : Fault → Prop} {k : ℕ}

def whileTurn (condition : Parser σ Bool) (body : Parser σ Unit) (_ : Unit) :
    Parser σ (Unit ⊕ Unit) := do
  if ← condition then
    body
    return .inl ()
  else return .inr ()

theorem whileM_eq : whileM condition body = repeatFrom () (whileTurn condition body) := rfl

theorem settles_turn {P : Workspace σ → Prop}
    (hc : Achieves w condition fun b v => b = true ∧ P v)
    (hb : ∀ v, P v → Settles v body
      (fun _ x => Settles x (repeatFor (whileTurn condition body) k ()) Q F) F) :
    Settles w (repeatFor (whileTurn condition body) (k + 1) ()) Q F := by
  have hturn : Settles w (whileTurn condition body ()) (fun r x => r = .inl () ∧
      Settles x (repeatFor (whileTurn condition body) k ()) Q F) F := by
    unfold whileTurn
    apply hc.bind
    rintro b v ⟨rfl, hP⟩
    apply (hb v hP).bind
    intro _ x hx
    exact Settles.pure ⟨rfl, hx⟩
  unfold repeatFor
  apply hturn.bind
  rintro r x ⟨rfl, hx⟩
  exact hx

theorem settles_lastTurn (hc : Achieves w condition fun b v => b = false ∧ v = w) (hQ : Q () w) :
    Settles w (repeatFor (whileTurn condition body) (k + 1) ()) Q F := by
  have hturn : Settles w (whileTurn condition body ()) (fun r x => r = .inr () ∧ x = w) F := by
    unfold whileTurn
    apply hc.bind
    rintro b v ⟨rfl, rfl⟩
    exact Settles.pure ⟨rfl, rfl⟩
  unfold repeatFor
  apply hturn.bind
  rintro r x ⟨rfl, rfl⟩
  exact hQ

end Turns

/-- Without its result a run is known as well. -/
theorem Settles.discard {α : Type} {p : Parser σ α} {P : Workspace σ → Prop}
    {F : Fault → Prop} (h : Settles w p (fun _ v => P v) F) :
    Settles w (Functor.discard p) (fun _ v => P v) F := by
  apply h.bind
  intro _ v hv
  exact Settles.pure hv

theorem achieves_noSkip {xs : List TokenType} (h : w.cursor.current.type ∉ xs) :
    Achieves w (skipIf xs) fun b v => b = false ∧ v = w := by
  have hat : w.cursor.isAtAny xs = false := by
    rwa [← Bool.not_eq_true, Cursor.isAtAny_iff]
  exact (settles_of_ok (skipIf_ok.2 ⟨hat, rfl⟩)).2 ⟨rfl, rfl⟩

theorem achieves_skip {t : Token} {xs : List TokenType} (hw : w.cursor.Passes (t :: ts) more)
    (ht : t.type ∈ xs) : Achieves w (skipIf xs) fun b v => b = true ∧ Past w ts more v := by
  have hpure : ∀ v, Past w ts more v →
      Achieves v (pure true) fun b x => b = true ∧ Past w ts more x :=
    fun v hv => Settles.pure ⟨rfl, hv⟩
  have h := settles_skipIf (f := fun b => pure b) hw ht hpure
  rwa [bind_pure] at h

/-- Tokens of the types are skipped up to the first of another type. -/
theorem achieves_skipAll {xs : List TokenType} (hts : ∀ t ∈ ts, t.type ∈ xs)
    (hus : frontType (us ++ more) ∉ xs) (hw : w.cursor.Passes (ts ++ us) more) :
    Achieves w (skipAll xs) fun _ v => v.cursor.Passes us more ∧ v.draft = w.draft := by
  have hturns : ∀ k, ts.length < k → Achieves w (repeatFor (whileTurn (skipIf xs) (return ())) k ())
      fun _ v => v.cursor.Passes us more ∧ v.draft = w.draft := by
    intro k hk
    induction ts generalizing w k with
    | nil =>
      obtain ⟨k, rfl⟩ := Nat.exists_eq_add_of_lt hk
      exact settles_lastTurn (achieves_noSkip (hw.type ▸ hus)) ⟨hw, rfl⟩
    | cons t ts ih =>
      obtain ⟨k, rfl⟩ := Nat.exists_eq_add_of_lt hk
      apply settles_turn (achieves_skip hw (hts t (by simp)))
      intro v hv
      apply Settles.pure
      have hrest := ih (fun t ht => hts t (by simp [ht])) hv.passes (ts.length + 1 + k)
        (by omega)
      rw [List.length_cons]
      apply hrest.mono
      rintro _ x ⟨hx, hd⟩
      exact ⟨hx, by rw [hd, hv.draft]⟩
  have hmoves := hw.length_lt_moves
  rw [List.length_append] at hmoves
  exact hturns _ (by omega)

theorem achieves_skipUntil {xs : List TokenType} (hts : ∀ t ∈ ts, t.type ∉ xs)
    (hend : ∀ t ∈ ts, t.type ≠ .endOfText) (hus : frontType (us ++ more) ∈ xs)
    (hw : w.cursor.Passes (ts ++ us) more) :
    Achieves w (skipUntil xs) fun _ v => v.cursor.Passes us more ∧ v.draft = w.draft := by
  have hcondition : ∀ {v : Workspace σ}, Achieves v (do
      return !(← isAtAny xs) && !(← cursor).isAtEnd)
      fun b x => b = (!v.cursor.isAtAny xs && !v.cursor.isAtEnd) ∧ x = v :=
    fun {_} => ⟨rfl, rfl⟩
  have hturns : ∀ k, ts.length < k → Achieves w (repeatFor (whileTurn (do
      return !(← isAtAny xs) && !(← cursor).isAtEnd) Parser.advance) k ())
      fun _ v => v.cursor.Passes us more ∧ v.draft = w.draft := by
    intro k hk
    induction ts generalizing w k with
    | nil =>
      obtain ⟨k, rfl⟩ := Nat.exists_eq_add_of_lt hk
      have hat : w.cursor.isAtAny xs = true := Cursor.isAtAny_iff.2 (hw.type ▸ hus)
      refine settles_lastTurn (hcondition.mono ?_) ⟨hw, rfl⟩
      rintro b x ⟨hb, hx⟩
      rw [hat] at hb
      exact ⟨hb, hx⟩
    | cons t ts ih =>
      rw [List.forall_mem_cons] at hts hend
      obtain ⟨k, rfl⟩ := Nat.exists_eq_add_of_lt hk
      have hat : w.cursor.isAtAny xs = false := by
        rw [← Bool.not_eq_true, Cursor.isAtAny_iff, hw.current]
        exact hts.1
      have hinside : w.cursor.isAtEnd = false := by
        rw [Cursor.isAtEnd, hw.current, beq_eq_false_iff_ne]
        exact hend.1
      refine settles_turn (P := (· = w)) (hcondition.mono ?_) ?_
      · rintro b x ⟨hb, hx⟩
        rw [hat, hinside] at hb
        exact ⟨hb, hx⟩
      · rintro x hx
        subst hx
        apply (achieves_advance hw).mono
        intro _ v hv
        rw [List.length_cons]
        apply (ih hts.2 hend.2 hv.passes (ts.length + 1 + k) (by omega)).mono
        rintro _ x ⟨hx, hd⟩
        exact ⟨hx, by rw [hd, hv.draft]⟩
  have hmoves := hw.length_lt_moves
  rw [List.length_append] at hmoves
  exact hturns _ (by omega)

end SqlFront.Parser

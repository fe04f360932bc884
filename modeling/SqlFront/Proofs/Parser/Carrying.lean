import SqlFront.Proofs.Cursor.Path

/-!
# What a parser carries from cursor to cursor

What is known of a cursor alone, whatever the draft, is carried through a parser rule by rule. A
rule for a token that is moved past asks what one step does.
-/

set_option autoImplicit false

namespace SqlFront.Parser

variable {σ τ α β : Type} {P P' Q R : Cursor → Prop}

def Carries (P : Cursor → Prop) (p : Parser σ α) (Q : α → Cursor → Prop) : Prop :=
  ∀ ⦃w : Workspace σ⦄ ⦃a : α⦄ ⦃w' : Workspace σ⦄, P w.cursor → p w = .ok a w' → Q a w'.cursor

def Steps (P : Cursor → Prop) (ts : List TokenType) (Q : Cursor → Prop) : Prop :=
  ∀ ⦃c c' : Cursor⦄, P c → c.current.type ∈ ts → c.advance = .ok c' → Q c'

namespace Carries

variable {p : Parser σ α} {f : α → Parser σ β} {A B : α → Cursor → Prop} {D : β → Cursor → Prop}

theorem pure {a : α} (h : ∀ c, P c → A a c) : Carries P (Pure.pure a : Parser σ α) A := by
  intro w b w' hw hr
  obtain ⟨rfl, rfl⟩ := pure_ok.1 hr
  exact h _ hw

theorem bind (hp : Carries P p A) (hf : ∀ a, Carries (A a) (f a) D) : Carries P (p >>= f) D := by
  intro w b w' hw hr
  obtain ⟨a, v, ha, hr⟩ := bind_ok.1 hr
  exact hf a (hp hw ha) hr

theorem mono (hp : Carries P p A) (h : ∀ a c, A a c → B a c) : Carries P p B :=
  fun _ _ _ hw hr => h _ _ (hp hw hr)

theorem weaken (hp : Carries P p A) (h : ∀ c, P' c → P c) : Carries P' p A :=
  fun _ _ _ hw hr => hp (h _ hw) hr

theorem throw {e : Fault} : Carries P (MonadExcept.throw e : Parser σ α) A :=
  fun _ _ _ _ hr => (throw_ok.1 hr).elim

theorem failAt {g : Cursor → Fault} : Carries P (failAt g : Parser σ α) A :=
  fun _ _ _ _ hr => (failAt_ok.1 hr).elim

theorem ite {b : Prop} [Decidable b] {q : Parser σ α} (hp : b → Carries P p A)
    (hq : ¬b → Carries P q A) : Carries P (if b then p else q) A := by
  split
  · next h => exact hp h
  · next h => exact hq h

theorem discard (hp : Carries P p fun _ => Q) : Carries P (Functor.discard p) fun _ => Q := by
  intro w u w' hw hr
  obtain ⟨a, hr⟩ := discard_ok.1 hr
  exact hp hw hr

theorem onFindings [HasFindings σ] {q : Parser Findings α} (hq : Carries P q A) :
    Carries P (onFindings q : Parser σ α) A := by
  intro w a w' hw hr
  obtain ⟨c, g, hq', rfl⟩ := onFindings_ok.1 hr
  exact hq hw hq'

theorem inside {own : τ} {q : Parser τ α} (hq : Carries P q A) :
    Carries P (inside own q : Parser σ (τ × α)) fun r => A r.2 := by
  intro w r w' hw hr
  obtain ⟨c, hq', rfl⟩ := inside_ok.1 hr
  exact hq hw hq'

/-! ## Readers that do not move -/

theorem current_bind {f : Token → Parser σ β}
    (h : ∀ t, Carries (fun c => P c ∧ c.current = t) (f t) D) : Carries P (current >>= f) D := by
  intro w b w' hw hr
  obtain ⟨t, v, ht, hr⟩ := bind_ok.1 hr
  obtain ⟨rfl, rfl⟩ := current_ok.1 ht
  exact h _ ⟨hw, rfl⟩ hr

theorem cursor_bind {f : Cursor → Parser σ β} (h : ∀ c, Carries P (f c) D) :
    Carries P (cursor >>= f) D := by
  intro w b w' hw hr
  obtain ⟨c, v, hc, hr⟩ := bind_ok.1 hr
  obtain ⟨rfl, rfl⟩ := cursor_ok.1 hc
  exact h _ hw hr

theorem draft_bind {f : σ → Parser σ β} (h : ∀ s, Carries P (f s) D) :
    Carries P (draft >>= f) D := by
  intro w b w' hw hr
  obtain ⟨c, v, hc, hr⟩ := bind_ok.1 hr
  obtain ⟨rfl, rfl⟩ := draft_ok.1 hc
  exact h _ hw hr

theorem grammar_bind {d : Dialect} {f : Grammar → Parser σ β} (hd : ∀ c, P c → c.dialect = d)
    (h : Carries P (f d.grammar) D) : Carries P (grammar >>= f) D := by
  intro w b w' hw hr
  obtain ⟨g, v, hg, hr⟩ := bind_ok.1 hr
  obtain ⟨rfl, rfl⟩ := grammar_ok.1 hg
  exact h hw (hd _ hw ▸ hr)

theorem isAt_bind {t : TokenType} {f : Bool → Parser σ β}
    (htrue : Carries (fun c => P c ∧ c.current.type = t) (f true) D)
    (hfalse : Carries P (f false) D) : Carries P (isAt t >>= f) D := by
  intro w b w' hw hr
  obtain ⟨at?, v, hat, hr⟩ := bind_ok.1 hr
  obtain ⟨rfl, rfl⟩ := isAt_ok.1 hat
  cases hat : w.cursor.isAt t with
  | true => exact htrue ⟨hw, Cursor.isAt_iff.1 hat⟩ (hat ▸ hr)
  | false => exact hfalse hw (hat ▸ hr)

theorem isAtAny_bind {ts : List TokenType} {f : Bool → Parser σ β}
    (htrue : Carries (fun c => P c ∧ c.current.type ∈ ts) (f true) D)
    (hfalse : Carries P (f false) D) : Carries P (isAtAny ts >>= f) D := by
  intro w b w' hw hr
  obtain ⟨at?, v, hat, hr⟩ := bind_ok.1 hr
  obtain ⟨rfl, rfl⟩ := isAtAny_ok.1 hat
  cases hat : w.cursor.isAtAny ts with
  | true => exact htrue ⟨hw, Cursor.isAtAny_iff.1 hat⟩ (hat ▸ hr)
  | false => exact hfalse hw (hat ▸ hr)

theorem modifyDraft {g : σ → σ} : Carries P (modifyDraft g) fun _ => P := by
  intro w u w' hw hr
  obtain rfl := modifyDraft_ok.1 hr
  exact hw

theorem isAhead {t : TokenType} : Carries P (isAhead t : Parser σ Bool) fun _ => P := by
  intro w b w' hw hr
  obtain ⟨-, rfl⟩ := isAhead_ok.1 hr
  exact hw

theorem isAtSubQuery : Carries P (isAtSubQuery : Parser σ Bool) fun _ => P := by
  intro w b w' hw hr
  obtain ⟨rfl, -⟩ := isAtSubQuery_ok.1 hr
  exact hw

theorem refuseIf {ts : List TokenType} : Carries P (refuseIf ts : Parser σ Unit) fun _ c =>
    P c ∧ c.current.type ∉ ts := by
  intro w u w' hw hr
  obtain ⟨hat, rfl⟩ := refuseIf_ok.1 hr
  rw [← Bool.not_eq_true, Cursor.isAtAny_iff] at hat
  exact ⟨hw, hat⟩

theorem countPlaceholder : Carries P countPlaceholder fun _ => P := by
  intro w n w' hw hr
  obtain ⟨_, _, hd, hr⟩ := bind_ok.1 hr
  obtain ⟨-, rfl⟩ := draft_ok.1 hd
  obtain ⟨_, _, hm, hr⟩ := bind_ok.1 hr
  obtain rfl := modifyDraft_ok.1 hm
  obtain ⟨-, rfl⟩ := pure_ok.1 hr
  exact hw

/-! ## Steps -/

theorem advance (h : ∀ ⦃c c' : Cursor⦄, P c → c.advance = .ok c' → Q c') :
    Carries P (advance : Parser σ Unit) fun _ => Q := by
  intro w u w' hw hr
  obtain ⟨c, hc, rfl⟩ := advance_ok.1 hr
  exact h hw hc

variable {ts : List TokenType}

theorem skipIf (hstep : Steps P ts Q) :
    Carries P (skipIf ts : Parser σ Bool) fun b c => if b then Q c else P c := by
  intro w b w' hw hr
  obtain ⟨hat, hv⟩ := skipIf_ok.1 hr
  cases b with
  | true =>
    obtain ⟨c, hc, rfl⟩ := hv
    exact hstep hw (Cursor.isAtAny_iff.1 hat) hc
  | false => exact hv ▸ hw

theorem skipIf_bind {f : Bool → Parser σ β} (hstep : Steps P ts Q)
    (htrue : Carries Q (f true) D) (hfalse : Carries P (f false) D) :
    Carries P (Parser.skipIf ts >>= f) D := by
  refine bind (skipIf hstep) fun b => ?_
  cases b with
  | true => exact htrue.weaken fun _ hc => hc
  | false => exact hfalse.weaken fun _ hc => by simpa using hc

theorem optional (hstep : Steps P ts P) : Carries P (Parser.skipIf ts : Parser σ Bool) fun _ => P :=
  (skipIf hstep).mono fun b _ hc => by cases b <;> simpa using hc

theorem expect {t : TokenType} (hstep : Steps P [t] Q) :
    Carries P (expect t : Parser σ Unit) fun _ => Q := by
  intro w u w' hw hr
  obtain ⟨hat, c, hc, rfl⟩ := expect_ok.1 hr
  exact hstep hw (List.mem_singleton.2 (Cursor.isAt_iff.1 hat)) hc

/-! ## Repetition -/

theorem repeatFrom {step : α → Parser σ (α ⊕ β)} {a : α}
    (h : ∀ a, Carries (A a) (step a) fun r c => Sum.elim (A · c) (D · c) r) :
    Carries (A a) (repeatFrom a step) D := by
  intro w b w' hw hr
  refine repeatFrom_induct (I := fun a w => A a w.cursor) (Q := fun b w => D b w.cursor)
    ?_ ?_ hw hr
  · exact fun ha hs => h _ ha hs
  · exact fun ha hs => h _ ha hs

theorem whileM {condition : Parser σ Bool} {body : Parser σ Unit}
    (hc : Carries P condition fun b c => if b then Q c else R c)
    (hb : Carries Q body fun _ => P) : Carries P (whileM condition body) fun _ => R := by
  intro w u w' hw hr
  refine whileM_induct (I := fun w => P w.cursor) (Q := fun w => R w.cursor) ?_ ?_ hw hr
  · exact fun hw hcond hbody => hb (hc hw hcond) hbody
  · exact fun hw hcond => hc hw hcond

theorem skipAll (hstep : Steps P ts P) : Carries P (skipAll ts : Parser σ Unit) fun _ => P :=
  whileM (skipIf hstep) (pure fun _ h => h)

theorem skipAll_from (hstep : Steps P ts Q) (hmore : Steps Q ts Q) :
    Carries (fun c => P c ∧ c.current.type ∈ ts) (Parser.skipAll ts : Parser σ Unit) fun _ => Q := by
  intro w u w' hw hr
  refine whileM_induct (I := fun w => Q w.cursor ∨ (P w.cursor ∧ w.cursor.current.type ∈ ts))
    (Q := fun w => Q w.cursor) ?_ ?_ (Or.inr hw) hr
  · intro v v₁ v₂ u hv hskip hbody
    obtain ⟨hat, c, hc, rfl⟩ := skipIf_ok.1 hskip
    obtain ⟨-, rfl⟩ := pure_ok.1 hbody
    have ht := Cursor.isAtAny_iff.1 hat
    exact Or.inl (hv.elim (fun h => hmore h ht hc) fun h => hstep h.1 ht hc)
  · intro v v₁ hv hskip
    obtain ⟨hat, rfl⟩ := skipIf_ok.1 hskip
    refine hv.resolve_right fun h => ?_
    rw [Cursor.isAtAny_iff.2 h.2] at hat
    cases hat

theorem separated {item : Parser σ α} (hitem : Carries P item fun _ => Q) (hstep : Steps Q ts P) :
    Carries P (separated ts item) fun _ => Q := by
  intro w xs w' hw hr
  refine (separated_induct (I := fun _ w => P w.cursor) (M := fun _ w => Q w.cursor)
    ?_ ?_ hw hr).1
  · exact fun hI hx => hitem hI hx
  · exact fun hM hat hc => hstep hM (Cursor.isAtAny_iff.1 hat) hc

end Carries

end SqlFront.Parser

import SqlFront.Proofs.Parser.Run

/-!
# Two readings side by side

The same words may stand in different places of two texts. The two texts are then read side by
side: both readings fail, or both find the same. Sequences, choices and repetitions of parsers that
agree in this do so too.
-/

set_option autoImplicit false

namespace SqlFront

open SqlFront.Parser

/-! ## What corresponds -/

structure SameWord (t u : Token) : Prop where
  type : t.type = u.type
  literals : t.literals = u.literals

structure SameFindings (f g : Findings) : Prop where
  tables : f.tables = g.tables
  conditions : f.conditions = g.conditions
  placeholders : f.placeholders = g.placeholders

inductive Both {ε α β : Type} (R : α → β → Prop) : Except ε α → Except ε β → Prop
  | ok {a : α} {b : β} : R a b → Both R (.ok a) (.ok b)
  | error (e f : ε) : Both R (.error e) (.error f)

def Edit.items? : Edit → Option (List String)
  | .items _ names _ => some names
  | _ => none

structure Pairing where
  cursors : Cursor → Cursor → Prop
  places : ℕ → ℕ → Prop
  texts : String → String → Prop
  edits : List Edit → List Edit → Prop
  dialect {c d : Cursor} : cursors c d → c.dialect = d.dialect
  word {c d : Cursor} : cursors c d → SameWord c.current d.current
  start {c d : Cursor} : cursors c d → places c.current.start d.current.start
  stop {c d : Cursor} : cursors c d → places c.previousStop d.previousStop
  moves {c d : Cursor} : cursors c d → c.moves = d.moves
  advance {c d : Cursor} : cursors c d → Both cursors c.advance d.advance
  slice {c d : Cursor} {m n k l : ℕ} : cursors c d → places m k → places n l →
    texts (c.slice m n) (d.slice k l)
  trim {x y : String} : texts x y → texts (trimmed x) (trimmed y)
  add {es fs : List Edit} {x y : Edit} : edits es fs → x.items? = none → y.items? = none →
    edits (es ++ [x]) (fs ++ [y])

structure Pairing.Found (P : Pairing) (f g : Findings) : Prop where
  same : SameFindings f g
  edits : P.edits f.edits g.edits

variable {P : Pairing} {σ τ α β γ δ : Type}

structure Alike (P : Pairing) (D : σ → τ → Prop) (w : Workspace σ) (v : Workspace τ) : Prop where
  cursors : P.cursors w.cursor v.cursor
  drafts : D w.draft v.draft

inductive Paired (ρ : α → β → Prop) (R : Workspace σ → Workspace τ → Prop) :
    EStateM.Result Fault (Workspace σ) α → EStateM.Result Fault (Workspace τ) β → Prop
  | ok {a : α} {b : β} {w : Workspace σ} {v : Workspace τ} : ρ a b → R w v →
      Paired ρ R (.ok a w) (.ok b v)
  | error {e f : Fault} {w : Workspace σ} {v : Workspace τ} : Paired ρ R (.error e w) (.error f v)

def Agrees (P : Pairing) (D : σ → τ → Prop) (ρ : α → β → Prop) (p : Parser σ α) (q : Parser τ β) :
    Prop :=
  ∀ ⦃w : Workspace σ⦄ ⦃v : Workspace τ⦄, Alike P D w v → Paired ρ (Alike P D) (p w) (q v)

def Any {α β : Type} (_ : α) (_ : β) : Prop := True

/-! ## Runs -/

section Runs

variable {ρ : α → β → Prop} {R : Workspace σ → Workspace τ → Prop}
  {r : EStateM.Result Fault (Workspace σ) α} {s : EStateM.Result Fault (Workspace τ) β}
  {a : α} {b : β} {w : Workspace σ} {v : Workspace τ}

theorem Paired.of_ok (h : Paired ρ R r s) (hr : r = .ok a w) : ∃ b v, s = .ok b v ∧ ρ a b ∧ R w v := by
  cases h with
  | ok hab hw =>
    cases hr
    exact ⟨_, _, rfl, hab, hw⟩
  | error => cases hr

theorem Paired.of_error {e : Fault} (h : Paired ρ R r s) (hr : r = .error e w) :
    ∃ f v, s = .error f v := by
  cases h with
  | ok => cases hr
  | error => exact ⟨_, _, rfl⟩

theorem Paired.both (h : Paired ρ R r s) (hr : r = .ok a w) (hs : s = .ok b v) : ρ a b ∧ R w v := by
  obtain ⟨b', v', hs', h⟩ := h.of_ok hr
  rw [hs] at hs'
  cases hs'
  exact h

end Runs

/-! ## Parsers that agree -/

variable {D : σ → τ → Prop} {ρ : α → β → Prop} {π : γ → δ → Prop} {p p' : Parser σ α}
  {q q' : Parser τ β}

theorem Agrees.mono {ρ' : α → β → Prop} (h : Agrees P D ρ p q) (hρ : ∀ a b, ρ a b → ρ' a b) :
    Agrees P D ρ' p q := by
  intro w v hw
  cases hp : p w with
  | ok a w' =>
    obtain ⟨b, v', hq, hab, hw'⟩ := (h hw).of_ok hp
    rw [hq]
    exact .ok (hρ a b hab) hw'
  | error e w' =>
    obtain ⟨f, v', hq⟩ := (h hw).of_error hp
    rw [hq]
    exact .error

theorem Agrees.bind {f : α → Parser σ γ} {g : β → Parser τ δ} (hp : Agrees P D ρ p q)
    (hf : ∀ a b, ρ a b → Agrees P D π (f a) (g b)) : Agrees P D π (p >>= f) (q >>= g) := by
  intro w v hw
  change Paired π _ (EStateM.bind p f w) (EStateM.bind q g v)
  unfold EStateM.bind
  cases hr : p w with
  | ok a w' =>
    obtain ⟨b, v', hq, hab, hw'⟩ := (hp hw).of_ok hr
    rw [hq]
    exact hf a b hab hw'
  | error e w' =>
    obtain ⟨f, v', hq⟩ := (hp hw).of_error hr
    rw [hq]
    exact .error

/-- What comes behind a result that is the same for both. -/
theorem Agrees.next {q : Parser τ α} {f : α → Parser σ γ} {g : α → Parser τ δ}
    (hp : Agrees P D Eq p q) (hf : ∀ a, Agrees P D π (f a) (g a)) :
    Agrees P D π (p >>= f) (q >>= g) := by
  refine hp.bind fun a b hab => ?_
  subst hab
  exact hf a

theorem Agrees.pure {a : α} {b : β} (h : ρ a b) :
    Agrees P D ρ (Pure.pure a : Parser σ α) (Pure.pure b : Parser τ β) :=
  fun _ _ hw => .ok h hw

theorem Agrees.throw {e f : Fault} :
    Agrees P D ρ (MonadExcept.throw e : Parser σ α) (MonadExcept.throw f : Parser τ β) :=
  fun _ _ _ => .error

theorem Agrees.failAt {f g : Cursor → Fault} :
    Agrees P D ρ (Parser.failAt f : Parser σ α) (Parser.failAt g : Parser τ β) :=
  fun _ _ _ => .error

theorem Agrees.ite {b : Prop} [Decidable b] (h₁ : Agrees P D ρ p q) (h₂ : Agrees P D ρ p' q') :
    Agrees P D ρ (if b then p else p') (if b then q else q') := by
  split
  · exact h₁
  · exact h₂

theorem Agrees.discard (h : Agrees P D ρ p q) : Agrees P D Eq (discard p) (discard q) :=
  h.bind fun _ _ _ => .pure rfl

/-! ## Primitives -/

theorem agrees_current : Agrees P D (fun t u => SameWord t u ∧ P.places t.start u.start)
    (current : Parser σ Token) (current : Parser τ Token) :=
  fun _ _ hw => .ok ⟨P.word hw.cursors, P.start hw.cursors⟩ hw

theorem agrees_cursor : Agrees P D P.cursors (cursor : Parser σ Cursor)
    (cursor : Parser τ Cursor) :=
  fun _ _ hw => .ok hw.cursors hw

theorem agrees_draft : Agrees P D D (draft : Parser σ σ) (draft : Parser τ τ) :=
  fun _ _ hw => .ok hw.drafts hw

theorem agrees_modifyDraft {f : σ → σ} {g : τ → τ} (h : ∀ x y, D x y → D (f x) (g y)) :
    Agrees P D Eq (modifyDraft f) (modifyDraft g) :=
  fun _ _ hw => .ok rfl ⟨hw.cursors, h _ _ hw.drafts⟩

theorem agrees_grammar : Agrees P D Eq (grammar : Parser σ Grammar) (grammar : Parser τ Grammar) := by
  intro w v hw
  refine .ok ?_ hw
  rw [P.dialect hw.cursors]

theorem agrees_advance : Agrees P D Eq (advance : Parser σ Unit) (advance : Parser τ Unit) := by
  refine agrees_cursor.bind fun c d hcd => ?_
  have hadvance := P.advance hcd
  generalize c.advance = r at hadvance ⊢
  generalize d.advance = s at hadvance ⊢
  cases hadvance with
  | ok hcd => exact fun _ _ hw => .ok rfl ⟨hcd, hw.drafts⟩
  | error => exact .throw

theorem agrees_isAt {t : TokenType} :
    Agrees P D Eq (isAt t : Parser σ Bool) (isAt t : Parser τ Bool) := by
  intro w v hw
  refine .ok ?_ hw
  rw [Cursor.isAt, (P.word hw.cursors).type]
  rfl

theorem agrees_isAtAny {ts : List TokenType} :
    Agrees P D Eq (isAtAny ts : Parser σ Bool) (isAtAny ts : Parser τ Bool) := by
  intro w v hw
  refine .ok ?_ hw
  rw [Cursor.isAtAny, (P.word hw.cursors).type]
  rfl

/-- Both cursors have a token behind the current one, or neither has. -/
theorem Pairing.peek {c d : Cursor} (h : P.cursors c d) : Both SameWord c.peek d.peek := by
  have hadvance := P.advance h
  unfold Cursor.advance at hadvance
  cases hc : c.peek with
  | ok t =>
    cases hd : d.peek with
    | ok u =>
      rw [hc, hd] at hadvance
      cases hadvance with
      | ok hcd => exact .ok (P.word hcd)
    | error f =>
      rw [hc, hd] at hadvance
      cases hadvance
  | error e =>
    cases hd : d.peek with
    | ok u =>
      rw [hc, hd] at hadvance
      cases hadvance
    | error f => exact .error e f

theorem agrees_peekType :
    Agrees P D Eq (peekType : Parser σ TokenType) (peekType : Parser τ TokenType) := by
  refine agrees_cursor.bind fun c d hcd => ?_
  have hpeek := P.peek hcd
  generalize c.peek = r at hpeek ⊢
  generalize d.peek = s at hpeek ⊢
  cases hpeek with
  | ok htu => exact .pure htu.type
  | error => exact .throw

theorem agrees_isAhead {t : TokenType} :
    Agrees P D Eq (isAhead t : Parser σ Bool) (isAhead t : Parser τ Bool) :=
  agrees_peekType.next fun _ => .pure rfl

theorem agrees_isAtSubQuery :
    Agrees P D Eq (isAtSubQuery : Parser σ Bool) (isAtSubQuery : Parser τ Bool) :=
  agrees_isAt.next fun _ => .ite agrees_isAhead (.pure rfl)

theorem agrees_skipIf {ts : List TokenType} :
    Agrees P D Eq (skipIf ts : Parser σ Bool) (skipIf ts : Parser τ Bool) :=
  agrees_isAtAny.next fun _ => .ite (agrees_advance.next fun _ => .pure rfl) (.pure rfl)

theorem agrees_expect {t : TokenType} :
    Agrees P D Eq (expect t : Parser σ Unit) (expect t : Parser τ Unit) :=
  agrees_isAt.next fun _ => .ite agrees_advance .failAt

/-! ## Repetition -/

theorem Agrees.repeatFor {step : α → Parser σ (α ⊕ γ)} {step' : β → Parser τ (β ⊕ δ)}
    (h : ∀ a b, ρ a b → Agrees P D (Sum.LiftRel ρ π) (step a) (step' b)) {n : ℕ} {a : α} {b : β}
    (hab : ρ a b) : Agrees P D π (repeatFor step n a) (repeatFor step' n b) := by
  induction n generalizing a b with
  | zero => exact .throw
  | succ n ih =>
    refine (h a b hab).bind fun r s hrs => ?_
    cases hrs with
    | inl hab => exact ih hab
    | inr hcd => exact .pure hcd

theorem Agrees.repeatFrom {step : α → Parser σ (α ⊕ γ)} {step' : β → Parser τ (β ⊕ δ)} {a : α}
    {b : β} (h : ∀ a b, ρ a b → Agrees P D (Sum.LiftRel ρ π) (step a) (step' b)) (hab : ρ a b) :
    Agrees P D π (repeatFrom a step) (repeatFrom b step') := by
  refine agrees_cursor.bind fun c d hcd => ?_
  rw [P.moves hcd]
  exact .repeatFor h hab

theorem Agrees.whileM {condition : Parser σ Bool} {condition' : Parser τ Bool}
    {body : Parser σ Unit} {body' : Parser τ Unit} (hc : Agrees P D Eq condition condition')
    (hb : Agrees P D Eq body body') :
    Agrees P D Eq (whileM condition body) (whileM condition' body') := by
  refine Agrees.repeatFrom (ρ := Eq) (fun _ _ _ => hc.next fun _ => .ite ?_ ?_) rfl
  · exact hb.next fun _ => .pure (.inl rfl)
  · exact .pure (.inr rfl)

theorem Agrees.separated {ts : List TokenType} (h : Agrees P D ρ p q) :
    Agrees P D (List.Forall₂ ρ) (separated ts p) (separated ts q) := by
  refine Agrees.repeatFrom (ρ := List.Forall₂ ρ) (fun xs ys hxy => ?_) .nil
  refine h.bind fun x y hx => agrees_skipIf.next fun _ => .ite (.pure (.inl ?_)) (.pure (.inr ?_))
  · exact List.rel_append hxy (.cons hx .nil)
  · exact List.rel_append hxy (.cons hx .nil)

/-- One run beside another, where the first steps go on from known results. -/
theorem Paired.bind {D : Workspace σ → Workspace τ → Prop} {R : Workspace σ → Workspace τ → Prop}
    {f : α → Parser σ γ} {g : β → Parser τ δ} {w : Workspace σ} {v : Workspace τ}
    (h : Paired ρ D (p w) (q v))
    (hf : ∀ a b w' v', p w = .ok a w' → ρ a b → D w' v' → Paired π R (f a w') (g b v')) :
    Paired π R ((p >>= f) w) ((q >>= g) v) := by
  change Paired π _ (EStateM.bind p f w) (EStateM.bind q g v)
  unfold EStateM.bind
  cases hr : p w with
  | ok a w' =>
    obtain ⟨b, v', hq, hab, hw'⟩ := h.of_ok hr
    rw [hq]
    exact hf a b w' v' hr hab hw'
  | error e w' =>
    obtain ⟨f, v', hq⟩ := h.of_error hr
    rw [hq]
    exact .error

theorem repeatFrom_run {step : α → Parser σ (α ⊕ γ)} {a : α} {w : Workspace σ} :
    repeatFrom a step w = repeatFor step w.cursor.moves a w := rfl

/-- A list whose items agree behind the first one, which the two runs may read from workspaces
that correspond in another way. -/
theorem Paired.separated {ts : List TokenType} {w : Workspace σ} {v : Workspace τ}
    (hfirst : Paired ρ (Alike P D) (p w) (q v)) (h : Agrees P D ρ p q)
    (hmoves : w.cursor.moves = v.cursor.moves) :
    Paired (List.Forall₂ ρ) (Alike P D) (Parser.separated ts p w) (Parser.separated ts q v) := by
  have hbehind : ∀ xs ys x y, List.Forall₂ ρ xs ys → ρ x y → Agrees P D
      (Sum.LiftRel (List.Forall₂ ρ) (List.Forall₂ ρ))
      (do if ← skipIf ts then return .inl (xs ++ [x]) else return .inr (xs ++ [x]))
      (do if ← skipIf ts then return .inl (ys ++ [y]) else return .inr (ys ++ [y])) := by
    intro xs ys x y hxy hx
    have hnext := List.rel_append hxy (.cons hx .nil)
    exact agrees_skipIf.next fun _ => .ite (.pure (.inl hnext)) (.pure (.inr hnext))
  have hround : ∀ xs ys, List.Forall₂ ρ xs ys → Agrees P D
      (Sum.LiftRel (List.Forall₂ ρ) (List.Forall₂ ρ))
      (do let x ← p; if ← skipIf ts then return .inl (xs ++ [x]) else return .inr (xs ++ [x]))
      (do let y ← q; if ← skipIf ts then return .inl (ys ++ [y]) else return .inr (ys ++ [y])) :=
    fun xs ys hxy => h.bind fun x y hx => hbehind xs ys x y hxy hx
  unfold Parser.separated
  rw [repeatFrom_run, repeatFrom_run, hmoves]
  cases v.cursor.moves with
  | zero => exact .error
  | succ n =>
    unfold Parser.repeatFor
    refine Paired.bind (hfirst.bind fun x y w' v' _ hx hw => hbehind [] [] x y .nil hx hw) ?_
    intro r s w' v' _ hrs hw
    cases hrs with
    | inl hxy => exact Agrees.repeatFor hround hxy hw
    | inr hxy => exact .ok hxy hw

theorem agrees_skipAll {ts : List TokenType} :
    Agrees P D Eq (skipAll ts : Parser σ Unit) (skipAll ts : Parser τ Unit) :=
  .whileM agrees_skipIf (.pure rfl)

/-! ## Findings -/

structure Drafts (P : Pairing) [HasFindings σ] [HasFindings τ] (D : σ → τ → Prop) : Prop where
  found {s : σ} {t : τ} : D s t → P.Found (findings s) (findings t)
  set {s : σ} {t : τ} {f g : Findings} : D s t → P.Found f g →
    D (setFindings s f) (setFindings t g)

theorem Agrees.onFindings [HasFindings σ] [HasFindings τ] {p : Parser Findings α}
    {q : Parser Findings β} (hD : Drafts P D) (h : Agrees P P.Found ρ p q) :
    Agrees P D ρ (onFindings p : Parser σ α) (onFindings q : Parser τ β) := by
  intro w v hw
  have hfound : Alike P P.Found ⟨w.cursor, findings w.draft⟩ ⟨v.cursor, findings v.draft⟩ :=
    ⟨hw.cursors, hD.found hw.drafts⟩
  unfold Parser.onFindings
  cases hp : p ⟨w.cursor, findings w.draft⟩ with
  | ok a w' =>
    obtain ⟨b, v', hq, hab, hw'⟩ := (h hfound).of_ok hp
    rw [hq]
    exact .ok hab ⟨hw'.cursors, hD.set hw.drafts hw'.drafts⟩
  | error e w' =>
    obtain ⟨f, v', hq⟩ := (h hfound).of_error hp
    rw [hq]
    exact .error

theorem agrees_countPlaceholder : Agrees P P.Found Eq countPlaceholder countPlaceholder := by
  refine agrees_draft.bind fun f g hf => Agrees.next ?_ fun _ => .pure hf.same.placeholders
  refine agrees_modifyDraft fun x y h => ⟨?_, h.edits⟩
  exact ⟨h.same.tables, h.same.conditions, congrArg (· + 1) h.same.placeholders⟩

end SqlFront

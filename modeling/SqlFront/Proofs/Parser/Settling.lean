import SqlFront.Proofs.Cursor.Facing

/-!
# The run of a parser

Where the tokens in front of a cursor are known, a reader of them has only one run. The rules here
build that run: what reads without moving is answered on the spot, what moves needs a token to move
past, and a repetition needs a measure that each round makes smaller.
-/

set_option autoImplicit false

namespace SqlFront

namespace Parser

variable {σ α β : Type} {w w' : Workspace σ}

def Settles (w : Workspace σ) (p : Parser σ α) (Q : α → Workspace σ → Prop) (F : Fault → Prop) :
    Prop :=
  match p w with
  | .ok a v => Q a v
  | .error f _ => F f

abbrev Achieves (w : Workspace σ) (p : Parser σ α) (Q : α → Workspace σ → Prop) : Prop :=
  Settles w p Q fun _ => False

section Rules

variable {p : Parser σ α} {f : α → Parser σ β} {P : α → Workspace σ → Prop}
  {Q : β → Workspace σ → Prop} {F G : Fault → Prop} {a : α} {v : Workspace σ}

theorem settles_of_ok (h : p w = .ok a v) : Settles w p P F ↔ P a v := by
  unfold Settles
  rw [h]

theorem Settles.property (h : Settles w p P F) (hr : p w = .ok a v) : P a v :=
  (settles_of_ok hr).1 h

theorem Achieves.run (h : Achieves w p P) : ∃ a v, p w = .ok a v ∧ P a v := by
  unfold Achieves Settles at h
  cases hr : p w with
  | ok a v =>
    rw [hr] at h
    exact ⟨a, v, rfl, h⟩
  | error e v =>
    rw [hr] at h
    exact h.elim

theorem Settles.mono {P' : α → Workspace σ → Prop} (h : Settles w p P F)
    (hP : ∀ a v, P a v → P' a v) : Settles w p P' F := by
  unfold Settles at *
  cases hr : p w with
  | ok a v =>
    rw [hr] at h
    exact hP a v h
  | error e v =>
    rw [hr] at h
    exact h

theorem Settles.faults (h : Settles w p P F) (hF : ∀ f, F f → G f) : Settles w p P G := by
  unfold Settles at *
  cases hr : p w with
  | ok a v =>
    rw [hr] at h
    exact h
  | error e v =>
    rw [hr] at h
    exact hF e h

theorem Achieves.settles (h : Achieves w p P) : Settles w p P F := by
  obtain ⟨a, v, hr, hP⟩ := h.run
  exact (settles_of_ok hr).2 hP

/-- What is known of the result is known of a run. -/
theorem Settles.withRun (h : Settles w p P F) :
    Settles w p (fun a v => P a v ∧ p w = .ok a v) F := by
  unfold Settles at *
  cases hr : p w with
  | ok a v =>
    rw [hr] at h
    exact ⟨h, rfl⟩
  | error e v =>
    rw [hr] at h
    exact h

theorem settles_of_run (h : ∀ a v, p w = .ok a v → P a v) (hF : ∀ f, F f) :
    Settles w p P F := by
  unfold Settles
  cases hr : p w with
  | ok a v => exact h a v hr
  | error e v => exact hF e

theorem Settles.pure (h : P a w) : Settles w (Pure.pure a) P F := h

theorem settles_bind_ok (h : p w = .ok a v) : Settles w (p >>= f) Q F ↔ Settles v (f a) Q F := by
  unfold Settles
  rw [bind_run h]

theorem Settles.bind (hp : Settles w p P F) (hf : ∀ a v, P a v → Settles v (f a) Q F) :
    Settles w (p >>= f) Q F := by
  cases hr : p w with
  | ok a v => exact (settles_bind_ok hr).2 (hf a v (hp.property hr))
  | error e v =>
    unfold Settles at hp ⊢
    change match EStateM.bind p f w with | .ok b v => Q b v | .error e _ => F e
    unfold EStateM.bind
    rw [hr] at hp ⊢
    exact hp

theorem Achieves.bind (hp : Achieves w p P) (hf : ∀ a v, P a v → Settles v (f a) Q F) :
    Settles w (p >>= f) Q F := by
  obtain ⟨a, v, hr, h⟩ := hp.run
  exact (settles_bind_ok hr).2 (hf a v h)

end Rules

/-! ## Readers that do not move -/

section Standing

variable {Q : β → Workspace σ → Prop} {F : Fault → Prop}

theorem settles_current {f : Token → Parser σ β} :
    Settles w (current >>= f) Q F ↔ Settles w (f w.cursor.current) Q F := Iff.rfl

theorem settles_cursor {f : Cursor → Parser σ β} :
    Settles w (cursor >>= f) Q F ↔ Settles w (f w.cursor) Q F := Iff.rfl

theorem settles_draft {f : σ → Parser σ β} :
    Settles w (draft >>= f) Q F ↔ Settles w (f w.draft) Q F := Iff.rfl

theorem settles_grammar {f : Grammar → Parser σ β} :
    Settles w (grammar >>= f) Q F ↔ Settles w (f w.cursor.dialect.grammar) Q F := Iff.rfl

theorem settles_isAt {t : TokenType} {f : Bool → Parser σ β} :
    Settles w (isAt t >>= f) Q F ↔ Settles w (f (w.cursor.isAt t)) Q F := Iff.rfl

theorem settles_isAtAny {ts : List TokenType} {f : Bool → Parser σ β} :
    Settles w (isAtAny ts >>= f) Q F ↔ Settles w (f (w.cursor.isAtAny ts)) Q F := Iff.rfl

theorem settles_modifyDraft {g : σ → σ} {f : Unit → Parser σ β} :
    Settles w (modifyDraft g >>= f) Q F ↔ Settles ⟨w.cursor, g w.draft⟩ (f ()) Q F := Iff.rfl

theorem settles_onFindings [HasFindings σ] {p : Parser Findings β} :
    Settles w (onFindings p) Q F ↔ Settles ⟨w.cursor, findings w.draft⟩ p
      (fun b v => Q b ⟨v.cursor, setFindings w.draft v.draft⟩) F := by
  unfold Settles onFindings
  cases p ⟨w.cursor, findings w.draft⟩ <;> rfl

theorem settles_inside {τ : Type} {own : τ} {p : Parser τ α} {f : τ × α → Parser σ β} :
    Settles w (inside own p >>= f) Q F ↔ Settles ⟨w.cursor, own⟩ p
      (fun a v => Settles ⟨v.cursor, w.draft⟩ (f (v.draft, a)) Q F) F := by
  change Settles w (EStateM.bind (inside own p) f) Q F ↔ _
  unfold Settles EStateM.bind inside
  cases p ⟨w.cursor, own⟩ <;> rfl

end Standing

/-! ## Repetition -/

def Round (n : ℕ) (I : ℕ → α → Workspace σ → Prop) (Q : β → Workspace σ → Prop) :
    α ⊕ β → Workspace σ → Prop
  | .inl a, w => ∃ m < n, I m a w
  | .inr b, w => Q b w

theorem Settles.repeatFor {step : α → Parser σ (α ⊕ β)} {I : ℕ → α → Workspace σ → Prop}
    {Q : β → Workspace σ → Prop} {F : Fault → Prop}
    (round : ∀ n a w, I n a w → Settles w (step a) (Round n I Q) F) {n k : ℕ} {a : α}
    (hI : I n a w) (hk : n < k) : Settles w (repeatFor step k a) Q F := by
  induction k generalizing n a w with
  | zero => omega
  | succ k ih =>
    unfold Parser.repeatFor
    apply (round n a w hI).bind
    intro r v hr
    cases r with
    | inl a' =>
      obtain ⟨m, hm, hI'⟩ := hr
      exact ih hI' (by omega)
    | inr b => exact Settles.pure hr

theorem Settles.repeatFrom {step : α → Parser σ (α ⊕ β)} {I : ℕ → α → Workspace σ → Prop}
    {Q : β → Workspace σ → Prop} {F : Fault → Prop}
    (round : ∀ n a w, I n a w → Settles w (step a) (Round n I Q) F) {n : ℕ} {a : α}
    (hI : I n a w) (hn : n < w.cursor.moves) : Settles w (repeatFrom a step) Q F :=
  Settles.repeatFor round hI hn

/-- A loop whose condition fails at once does nothing. -/
theorem achieves_noWhile {condition : Parser σ Bool} {body : Parser σ Unit}
    (h : Achieves w condition fun b v => b = false ∧ v = w) :
    Achieves w (whileM condition body) fun _ v => v = w := by
  have hI : (0 = 0 ∧ w = w) := ⟨rfl, rfl⟩
  have hmoves : 0 < w.cursor.moves := Nat.succ_pos _
  refine Settles.repeatFrom (I := fun n (_ : Unit) v => n = 0 ∧ v = w) ?_ hI hmoves
  rintro n ⟨⟩ v ⟨rfl, rfl⟩
  apply h.bind
  rintro b x ⟨rfl, rfl⟩
  exact Settles.pure rfl

end Parser

/-! ## Tokens to move past -/

namespace Cursor

variable {c c' : Cursor} {t : Token} {ts us more : List Token}

/-- The cursor faces these tokens and then `more`, and it can move past all of the former. -/
structure Passes (c : Cursor) (ts more : List Token) : Prop where
  faces : c.Faces (ts ++ more)
  ending : more = [] → ∃ t, c.ahead.ending = .ok t

/-- Where more tokens follow, they can be moved to. -/
theorem Faces.passes (h : c.Faces (ts ++ more)) (hm : more ≠ []) : c.Passes ts more :=
  ⟨h, fun hnil => (hm hnil).elim⟩

theorem Passes.type (h : c.Passes ts more) : c.current.type = frontType (ts ++ more) :=
  h.faces.type

theorem Passes.isAt (h : c.Passes ts more) (x : TokenType) :
    c.isAt x = (frontType (ts ++ more) == x) := h.faces.isAt x

theorem Passes.isAtAny (h : c.Passes ts more) (xs : List TokenType) :
    c.isAtAny xs = xs.contains (frontType (ts ++ more)) := h.faces.isAtAny xs

theorem Passes.current (h : c.Passes (t :: ts) more) : c.current = t := h.faces.current

theorem Passes.peek (h : c.Passes (t :: ts) more) :
    ∃ x, c.peek = .ok x ∧ x.type = frontType (ts ++ more) := by
  have hr : c.rest = t :: (ts ++ more) := h.faces.rest_cons
  have hpeek : ∃ x, c.peek = .ok x := by
    cases hts : ts ++ more with
    | nil =>
      obtain ⟨x, hx⟩ := h.ending (List.append_eq_nil_iff.1 hts).2
      rw [hts] at hr
      have hnil : c.ahead.tokens = [] := (List.cons.inj hr).2
      exact ⟨x, peek_ok.2 (Or.inr ⟨hnil, hx⟩)⟩
    | cons x us =>
      rw [hts] at hr
      have hahead : c.ahead.tokens = x :: us := (List.cons.inj hr).2
      exact ⟨x, peek_ok.2 (Or.inl (by rw [hahead]; rfl))⟩
  obtain ⟨x, hx⟩ := hpeek
  exact ⟨x, hx, h.faces.peek hx⟩

theorem Passes.advance (h : c.Passes (t :: ts) more) :
    ∃ c', c.advance = .ok c' ∧ c'.Passes ts more := by
  obtain ⟨x, hx, -⟩ := h.peek
  have ha := advance_ok.2 ⟨x, hx, rfl⟩
  refine ⟨_, ha, h.faces.advance ha, fun hm => ?_⟩
  rw [advance_ending ha]
  exact h.ending hm

/-- A part of the tokens can be moved past as well. -/
theorem Passes.part (h : c.Passes (ts ++ us) more) : c.Passes ts (us ++ more) := by
  constructor
  · rw [← List.append_assoc]
    exact h.faces
  · intro hnil
    exact h.ending (List.append_eq_nil_iff.1 hnil).2

/-- All of the tokens are moved past, one by one. -/
theorem Passes.reaches (h : c.Passes ts more) : ∃ c', c.Reaches c' ∧ c'.Passes [] more := by
  induction ts generalizing c with
  | nil => exact ⟨c, .refl c, h⟩
  | cons t ts ih =>
    obtain ⟨c₁, hc₁, h₁⟩ := h.advance
    obtain ⟨c', hc', h'⟩ := ih h₁
    exact ⟨c', (Reaches.single hc₁).trans hc', h'⟩

/-- The first step leads to tokens that can be moved past, up to the end of the text. -/
theorem ofText_passes {d : Dialect} {sql : String}
    (hts : (TokenStream.ofText d sql.toList).tokens = ts ++ more)
    (hend : more = [] → ∃ t, (TokenStream.ofText d sql.toList).ending = .ok t)
    (hc : (Cursor.ofText d sql).advance = .ok c) : c.Passes ts more := by
  have hfaces := ofText_faces hc
  rw [hts] at hfaces
  refine ⟨hfaces, fun hnil => ?_⟩
  rw [advance_ending hc]
  exact hend hnil

/-- A repetition that makes the tokens fewer in each round comes to its end. -/
theorem Passes.length_lt_moves (h : c.Passes ts more) : ts.length < c.moves := by
  rcases h.faces.rest with hr | ⟨hnil, -⟩
  · have hlen : (ts ++ more).length = c.ahead.tokens.length + 1 := by
      rw [← hr]
      rfl
    rw [List.length_append] at hlen
    unfold moves
    omega
  · rw [(List.append_eq_nil_iff.1 hnil).1]
    unfold moves
    simp

end Cursor

namespace Parser

variable {σ α β : Type} {w w' : Workspace σ} {t : Token} {ts more : List Token}

structure Past (w : Workspace σ) (ts more : List Token) (v : Workspace σ) : Prop where
  advance : w.cursor.advance = .ok v.cursor
  passes : v.cursor.Passes ts more
  draft : v.draft = w.draft

theorem Past.walk {v : Workspace σ} (h : Past w ts more v) (hw : w.cursor.Passes (t :: ts) more) :
    w.cursor.Walk [t] v.cursor :=
  hw.current ▸ .single h.advance

theorem achieves_advance (hw : w.cursor.Passes (t :: ts) more) :
    Achieves w Parser.advance fun _ v => Past w ts more v := by
  obtain ⟨c, hc, hp⟩ := hw.advance
  have hadvance : Parser.advance w = .ok () ⟨c, w.draft⟩ := advance_ok.2 ⟨c, hc, rfl⟩
  exact (settles_of_ok hadvance).2 ⟨hc, hp, rfl⟩

theorem achieves_expect {x : TokenType} (hw : w.cursor.Passes (t :: ts) more)
    (ht : t.type = x) : Achieves w (expect x) fun _ v => Past w ts more v := by
  obtain ⟨c, hc, hp⟩ := hw.advance
  have hat : w.cursor.isAt x = true := by
    rw [Cursor.isAt_iff, hw.current]
    exact ht
  have hexpect : expect x w = .ok () ⟨c, w.draft⟩ := expect_ok.2 ⟨hat, c, hc, rfl⟩
  exact (settles_of_ok hexpect).2 ⟨hc, hp, rfl⟩

theorem settles_missing {x : TokenType} {F : Fault → Prop} (hat : w.cursor.isAt x = false)
    (hF : ∀ place cause, F (.malformed place cause)) :
    Settles w (expect x) (fun _ _ => False) F := by
  unfold expect
  apply settles_isAt.2
  rw [hat, if_neg (by simp)]
  exact hF _ _

theorem settles_unexpected {x : TokenType} {f : Unit → Parser σ β} {Q : β → Workspace σ → Prop}
    {F : Fault → Prop} (hat : w.cursor.isAt x = false)
    (hF : ∀ place cause, F (.malformed place cause)) : Settles w (expect x >>= f) Q F :=
  (settles_missing hat hF).bind fun _ _ h => h.elim

theorem achieves_isAhead {x : TokenType} (hw : w.cursor.Passes (t :: ts) more) :
    Achieves w (isAhead x) fun b v => b = (frontType (ts ++ more) == x) ∧ v = w := by
  obtain ⟨y, hy, ht⟩ := hw.peek
  have hahead : isAhead x w = .ok (y.type == x) w := isAhead_ok.2 ⟨⟨y, hy, rfl⟩, rfl⟩
  exact (settles_of_ok hahead).2 ⟨by rw [ht], rfl⟩

section Skipping

variable {f : Bool → Parser σ β} {Q : β → Workspace σ → Prop} {F : Fault → Prop}
  {xs : List TokenType}

/-- A token of the types is skipped. -/
theorem settles_skipIf (hw : w.cursor.Passes (t :: ts) more) (ht : t.type ∈ xs)
    (h : ∀ v, Past w ts more v → Settles v (f true) Q F) : Settles w (skipIf xs >>= f) Q F := by
  have hat : w.cursor.isAtAny xs = true := by
    rw [Cursor.isAtAny_iff, hw.current]
    exact ht
  obtain ⟨c, hc, hp⟩ := hw.advance
  have hskip : skipIf xs w = .ok true ⟨c, w.draft⟩ :=
    skipIf_ok.2 ⟨hat, by rw [if_pos rfl]; exact ⟨c, hc, rfl⟩⟩
  exact (settles_bind_ok hskip).2 (h ⟨c, w.draft⟩ ⟨hc, hp, rfl⟩)

/-- A token of another type is not skipped. -/
theorem settles_notAt (ht : w.cursor.current.type ∉ xs) (h : Settles w (f false) Q F) :
    Settles w (skipIf xs >>= f) Q F := by
  have hat : w.cursor.isAtAny xs = false := by
    rwa [← Bool.not_eq_true, Cursor.isAtAny_iff]
  have hskip : skipIf xs w = .ok false w := skipIf_ok.2 ⟨hat, rfl⟩
  exact (settles_bind_ok hskip).2 h

theorem settles_noSkip (hw : w.cursor.Passes ts more) (ht : frontType (ts ++ more) ∉ xs)
    (h : Settles w (f false) Q F) : Settles w (skipIf xs >>= f) Q F :=
  settles_notAt (hw.type ▸ ht) h

theorem settles_noRefusal {f : Unit → Parser σ β} (hw : w.cursor.Passes ts more)
    (ht : frontType (ts ++ more) ∉ xs) (h : Settles w (f ()) Q F) :
    Settles w (refuseIf xs >>= f) Q F := by
  have hat : w.cursor.isAtAny xs = false := by
    rw [hw.isAtAny, List.contains_eq_mem]
    exact decide_eq_false ht
  have hrefuse : refuseIf xs w = .ok () w := refuseIf_ok.2 ⟨hat, rfl⟩
  exact (settles_bind_ok hrefuse).2 h

theorem settles_noSubQuery (hw : w.cursor.Passes (t :: ts) more)
    (ht : frontType (ts ++ more) ≠ .keyword .SELECT) (h : Settles w (f false) Q F) :
    Settles w (isAtSubQuery >>= f) Q F := by
  have hsub : isAtSubQuery w = .ok false w := by
    apply isAtSubQuery_ok.2
    refine ⟨rfl, ?_⟩
    split
    · obtain ⟨x, hx, hxt⟩ := hw.peek
      exact ⟨x, hx, by rw [hxt, beq_eq_false_iff_ne]; exact ht⟩
    · rfl
  exact (settles_bind_ok hsub).2 h

end Skipping

/-! ## Lists with separators -/

section Joined

variable {ι : Type} {separator : TokenType} {Spells : ι → List Token → Prop} {xs : List ι}
  {us : List Token}

inductive Joined (separator : TokenType) (Spells : ι → List Token → Prop) :
    List ι → List Token → Prop
  | single {x : ι} {ts : List Token} : Spells x ts → Joined separator Spells [x] ts
  | cons {x : ι} {xs : List ι} {s : Token} {ts us : List Token} : Spells x ts →
      s.type = separator → Joined separator Spells xs us →
      Joined separator Spells (x :: xs) (ts ++ s :: us)

theorem Joined.length_le (h : Joined separator Spells xs ts) : xs.length ≤ ts.length + 1 := by
  induction h with
  | single => simp
  | cons _ _ _ ih =>
    simp only [List.length_cons, List.length_append]
    omega

theorem Joined.mono {Spells' : ι → List Token → Prop} (h : Joined separator Spells xs ts)
    (hs : ∀ x us, x ∈ xs → Spells x us → Spells' x us) : Joined separator Spells' xs ts := by
  induction h with
  | single hx => exact .single (hs _ _ (by simp) hx)
  | cons hx ht _ ih =>
    exact .cons (hs _ _ (by simp) hx) ht (ih fun x us hmem => hs x us (by simp [hmem]))

theorem Joined.ne_nil (h : Joined separator Spells xs ts) : xs ≠ [] := by
  cases h <;> simp

theorem Joined.front (h : Joined separator Spells xs ts) :
    ∃ x ∈ xs, ∃ us rest, ts = us ++ rest ∧ Spells x us := by
  cases h with
  | @single x _ hx => exact ⟨x, by simp, ts, [], by simp, hx⟩
  | @cons x _ s us _ hx => exact ⟨x, by simp, us, _, rfl, hx⟩

structure ItemRule (separator : TokenType) (Spells : ι → List Token → Prop) (item : Parser σ α)
    (Follows : List Token → Prop) (I : List ι → List α → Workspace σ → Prop)
    (Stuck : Workspace σ → Prop) (F : Fault → Prop) (more : List Token) : Prop where
  read : ∀ (x : ι) (ts us : List Token) (before : List ι) (as : List α) (w : Workspace σ),
    Spells x ts → Follows (us ++ more) → w.cursor.Passes (ts ++ us) more → I before as w →
    Settles w item (fun a v =>
      (v.cursor.Passes us more ∧ I (before ++ [x]) (as ++ [a]) v) ∨ Stuck v) F
  skip : ∀ (ts : List Token) (before : List ι) (as : List α) (w v : Workspace σ),
    Past w ts more v → I before as w → I before as v
  follow : ∀ (s : Token) (xs : List ι) (ts us : List Token), s.type = separator →
    Joined separator Spells xs ts → Follows (us ++ more) → Follows (s :: (ts ++ us) ++ more)
  stuck : ∀ v : Workspace σ, Stuck v → v.cursor.isAtAny [separator] = false

variable {item : Parser σ α} {Follows : List Token → Prop}
  {I : List ι → List α → Workspace σ → Prop} {Stuck : Workspace σ → Prop} {F : Fault → Prop}

def listRound (separator : TokenType) (item : Parser σ α) (before : List α) :
    Parser σ (List α ⊕ List α) := do
  let x ← item
  if ← skipIf [separator] then return .inl (before ++ [x]) else return .inr (before ++ [x])

/-- A list goes on behind an item where a separator follows. -/
theorem repeatFor_listRound {k : ℕ} {before : List α} :
    repeatFor (listRound separator item) (k + 1) before = (do
      let x ← item
      if ← skipIf [separator] then repeatFor (listRound separator item) k (before ++ [x])
      else return before ++ [x]) := by
  conv_lhs => unfold Parser.repeatFor listRound
  simp only [bind_assoc]
  congr 1
  funext x
  congr 1
  funext b
  cases b <;> rfl

theorem ItemRule.last (hr : ItemRule separator Spells item Follows I Stuck F more) {x : ι}
    (hx : Spells x ts) (hf : Follows (us ++ more)) (hs : frontType (us ++ more) ≠ separator)
    {before : List ι} {as : List α} (hw : w.cursor.Passes (ts ++ us) more) (hI : I before as w) :
    Settles w (listRound separator item as) (fun r v => ∃ bs, r = .inr bs ∧
      ((v.cursor.Passes us more ∧ I (before ++ [x]) bs v) ∨ Stuck v)) F := by
  unfold listRound
  apply (hr.read x ts us before as w hx hf hw hI).bind
  intro a v hv
  have hat : v.cursor.isAtAny [separator] = false := by
    rcases hv with ⟨hv, -⟩ | hv
    · simpa [hv.isAtAny] using hs
    · exact hr.stuck v hv
  exact (settles_bind_ok (skipIf_ok.2 ⟨hat, rfl⟩)).2 (Settles.pure ⟨as ++ [a], rfl, hv⟩)

theorem ItemRule.next (hr : ItemRule separator Spells item Follows I Stuck F more) {x : ι}
    {s : Token} (hx : Spells x ts) (hs : s.type = separator) (hf : Follows (s :: us ++ more))
    {before : List ι} {as : List α} (hw : w.cursor.Passes (ts ++ s :: us) more)
    (hI : I before as w) :
    Settles w (listRound separator item as) (fun r v => ∃ bs,
      (r = .inl bs ∧ v.cursor.Passes us more ∧ I (before ++ [x]) bs v) ∨
        (r = .inr bs ∧ Stuck v)) F := by
  unfold listRound
  apply (hr.read x ts (s :: us) before as w hx hf hw hI).bind
  intro a v hv
  rcases hv with ⟨hv, hI⟩ | hv
  · apply settles_skipIf hv (by simp [hs])
    intro v₁ h₁
    exact Settles.pure ⟨as ++ [a], Or.inl ⟨rfl, h₁.passes, hr.skip us _ _ v v₁ h₁ hI⟩⟩
  · have hat := hr.stuck v hv
    exact (settles_bind_ok (skipIf_ok.2 ⟨hat, rfl⟩)).2
      (Settles.pure ⟨as ++ [a], Or.inr ⟨rfl, hv⟩⟩)

theorem ItemRule.repeatFor (hr : ItemRule separator Spells item Follows I Stuck F more)
    (hf : Follows (us ++ more)) (hs : frontType (us ++ more) ≠ separator)
    (hxs : Joined separator Spells xs ts) {k : ℕ} (hk : xs.length ≤ k) {before : List ι}
    {as : List α} (hw : w.cursor.Passes (ts ++ us) more) (hI : I before as w) :
    Settles w (repeatFor (listRound separator item) k as) (fun bs v =>
      (v.cursor.Passes us more ∧ I (before ++ xs) bs v) ∨ Stuck v) F := by
  -- By induction on the items that are still to be read.
  induction hxs generalizing k before as w with
  | @single x ts hx =>
    obtain ⟨k, rfl⟩ := Nat.exists_eq_add_of_le' hk
    apply (hr.last hx hf hs hw hI).bind
    rintro r v ⟨bs, rfl, h⟩
    exact Settles.pure h
  | @cons x xs s ts rest hx ht hxs ih =>
    obtain ⟨k, rfl⟩ := Nat.exists_eq_add_of_le' hk
    rw [List.append_assoc, List.cons_append] at hw
    apply (hr.next hx ht (hr.follow s xs rest us ht hxs hf) hw hI).bind
    rintro r v ⟨bs, ⟨rfl, hv, hI⟩ | ⟨rfl, hv⟩⟩
    · have hrest := ih (k := k + xs.length) (by omega) hv hI
      simpa using hrest
    · exact Settles.pure (Or.inr hv)

/-- Items are read one by one, up to the end of the list or up to where the reading gets stuck. -/
theorem ItemRule.separated (hr : ItemRule separator Spells item Follows I Stuck F more)
    (hf : Follows (us ++ more)) (hs : frontType (us ++ more) ≠ separator)
    (hxs : Joined separator Spells xs ts) (hw : w.cursor.Passes (ts ++ us) more)
    (hI : I [] [] w) :
    Settles w (Parser.separated [separator] item) (fun as v =>
      (v.cursor.Passes us more ∧ I xs as v) ∨ Stuck v) F := by
  have hmoves := hw.length_lt_moves
  have hlength := hxs.length_le
  rw [List.length_append] at hmoves
  exact hr.repeatFor hf hs hxs (by omega) hw hI

end Joined

end Parser

end SqlFront

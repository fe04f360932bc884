import SqlFront.Proofs.Cursor.Path

/-!
# What a cursor faces

A cursor on a token of its text faces this token and those behind it. At the end of the text it
faces nothing, and it stays there.
-/

set_option autoImplicit false

namespace SqlFront

def frontType (ts : List Token) : TokenType := (ts.head?.map Token.type).getD .endOfText

@[simp] theorem frontType_nil : frontType [] = .endOfText := rfl

@[simp] theorem frontType_cons (t : Token) (ts : List Token) : frontType (t :: ts) = t.type := rfl

theorem frontType_append {ts us : List Token} (h : ts ≠ []) :
    frontType (ts ++ us) = frontType ts := by
  cases ts with
  | nil => exact (h rfl).elim
  | cons t ts => rfl

namespace Cursor

variable {c c' : Cursor} {t : Token} {ts : List Token}

structure Faces (c : Cursor) (ts : List Token) : Prop where
  ending : ∀ t, c.ahead.ending = .ok t → ∃ n, t = Token.atEnd n
  rest : c.rest = ts ∨ (ts = [] ∧ c.ahead.tokens = [] ∧ ∃ n, c.current = Token.atEnd n)

theorem Faces.rest_cons (h : c.Faces (t :: ts)) : c.rest = t :: ts := by
  rcases h.rest with h | ⟨h, -⟩
  · exact h
  · cases h

theorem Faces.current (h : c.Faces (t :: ts)) : c.current = t := current_of_rest h.rest_cons

theorem Faces.type (h : c.Faces ts) : c.current.type = frontType ts := by
  rcases h.rest with rfl | ⟨rfl, -, n, ht⟩
  · rfl
  · rw [ht]
    rfl

theorem Faces.isAt (h : c.Faces ts) (x : TokenType) : c.isAt x = (frontType ts == x) := by
  rw [Cursor.isAt, h.type]

theorem Faces.isAtAny (h : c.Faces ts) (xs : List TokenType) :
    c.isAtAny xs = xs.contains (frontType ts) := by
  rw [Cursor.isAtAny, h.type]

/-- One step takes the first token away. -/
theorem Faces.advance (h : c.Faces (t :: ts)) (ha : c.advance = .ok c') : c'.Faces ts := by
  have hr := h.rest_cons
  refine ⟨fun x hx => h.ending x (by rw [← advance_ending ha]; exact hx), ?_⟩
  rcases advance_rest ha with hr' | ⟨hnil, hr', he⟩
  · rw [hr'] at hr
    exact Or.inl (List.cons.inj hr).2
  · rw [Cursor.rest, hnil] at hr
    obtain ⟨-, rfl⟩ := List.cons.inj hr
    rw [Cursor.rest] at hr'
    exact Or.inr ⟨rfl, (List.cons.inj hr').2, h.ending _ he⟩

theorem Faces.advance_nil (h : c.Faces []) (ha : c.advance = .ok c') : c'.Faces [] := by
  rcases h.rest with hr | ⟨-, hnil, -⟩
  · cases hr
  · refine ⟨fun x hx => h.ending x (by rw [← advance_ending ha]; exact hx), ?_⟩
    rcases advance_rest ha with hr | ⟨-, hr, he⟩
    · rw [Cursor.rest, hnil] at hr
      cases hr
    · rw [Cursor.rest] at hr
      exact Or.inr ⟨rfl, (List.cons.inj hr).2, h.ending _ he⟩

/-- The token behind the first has the type of the next one. -/
theorem Faces.peek {x : Token} (h : c.Faces (t :: ts)) (hp : c.peek = .ok x) :
    x.type = frontType ts := by
  obtain ⟨c', ha⟩ : ∃ c', c.advance = .ok c' := ⟨_, advance_ok.2 ⟨x, hp, rfl⟩⟩
  have hx : c'.current = x := by
    obtain ⟨y, hy, rfl⟩ := advance_ok.1 ha
    exact Except.ok.inj (hy.symm.trans hp)
  rw [← hx]
  exact (h.advance ha).type

/-- A reached cursor faces a last part of what was faced. -/
theorem Faces.reaches (h : c.Faces ts) (hr : c.Reaches c') : ∃ us, us <:+ ts ∧ c'.Faces us := by
  induction hr with
  | refl => exact ⟨ts, List.suffix_rfl, h⟩
  | tail _ ha ih =>
    obtain ⟨us, hus, hc⟩ := ih
    cases us with
    | nil => exact ⟨[], hus, hc.advance_nil ha⟩
    | cons u us => exact ⟨us, (List.suffix_cons u us).trans hus, hc.advance ha⟩

/-- Behind the first step a cursor faces the tokens of its text. -/
theorem ofText_faces {d : Dialect} {sql : String} (ha : (ofText d sql).advance = .ok c) :
    c.Faces (TokenStream.ofText d sql.toList).tokens := by
  have hstart : (ofText d sql).Faces
      (Token.unread :: (TokenStream.ofText d sql.toList).tokens) := by
    refine ⟨fun t ht => ?_, Or.inl rfl⟩
    exact ending_type ht
  exact hstart.advance ha

/-- The first step leads to the first token. -/
theorem ofText_first {d : Dialect} {sql : String}
    (h : (TokenStream.ofText d sql.toList).tokens = t :: ts) :
    ∃ c, (Cursor.ofText d sql).advance = .ok c ∧ c.Faces (t :: ts) := by
  have hpeek : (Cursor.ofText d sql).peek = .ok t := peek_ok.2 (Or.inl (congrArg List.head? h))
  have hc := advance_ok.2 ⟨t, hpeek, rfl⟩
  have hfaces := ofText_faces hc
  rw [h] at hfaces
  exact ⟨_, hc, hfaces⟩

end Cursor

/-! ## Readers of single tokens -/

namespace Parser

variable {σ α : Type} {w w' : Workspace σ} {t : Token} {ts : List Token} {a : α}

theorem advance_front {u : Unit} (hw : w.cursor.Faces (t :: ts)) (h : advance w = .ok u w') :
    w'.cursor.Faces ts ∧ w'.draft = w.draft := by
  obtain ⟨c, hc, rfl⟩ := advance_ok.1 h
  exact ⟨hw.advance hc, rfl⟩

theorem isAt_other {x : TokenType} (hw : w.cursor.Faces ts) (ht : frontType ts ≠ x)
    {f : Bool → Parser σ α} (h : (isAt x >>= f) w = .ok a w') : f false w = .ok a w' := by
  obtain ⟨b, v, hb, hf⟩ := bind_ok.1 h
  obtain ⟨hat, rfl⟩ := isAt_ok.1 hb
  rw [hw.isAt, beq_eq_false_iff_ne.2 ht] at hat
  exact hat ▸ hf

theorem isAtAny_other {xs : List TokenType} (hw : w.cursor.Faces ts) (ht : frontType ts ∉ xs)
    {f : Bool → Parser σ α} (h : (isAtAny xs >>= f) w = .ok a w') : f false w = .ok a w' := by
  obtain ⟨b, v, hb, hf⟩ := bind_ok.1 h
  obtain ⟨hat, rfl⟩ := isAtAny_ok.1 hb
  rw [hw.isAtAny, List.contains_eq_mem, decide_eq_false ht] at hat
  exact hat ▸ hf

theorem current_front (hw : w.cursor.Faces (t :: ts)) {f : Token → Parser σ α}
    (h : (current >>= f) w = .ok a w') : f t w = .ok a w' := by
  obtain ⟨x, v, hx, hf⟩ := bind_ok.1 h
  obtain ⟨rfl, rfl⟩ := current_ok.1 hx
  exact hw.current ▸ hf

theorem skipIf_front {xs : List TokenType} {b : Bool} (hw : w.cursor.Faces (t :: ts))
    (ht : t.type ∈ xs) (h : skipIf xs w = .ok b w') :
    b = true ∧ w'.cursor.Faces ts ∧ w'.draft = w.draft := by
  obtain ⟨hat, h⟩ := skipIf_ok.1 h
  rw [Cursor.isAtAny_iff.2 (hw.type ▸ ht)] at hat
  subst hat
  obtain ⟨c, hc, rfl⟩ := h
  exact ⟨rfl, hw.advance hc, rfl⟩

theorem skipIf_other {xs : List TokenType} (hw : w.cursor.Faces ts) (ht : frontType ts ∉ xs)
    {f : Bool → Parser σ α} (h : (skipIf xs >>= f) w = .ok a w') : f false w = .ok a w' := by
  obtain ⟨b, v, hb, hf⟩ := bind_ok.1 h
  obtain ⟨hat, hs⟩ := skipIf_ok.1 hb
  rw [hw.isAtAny, List.contains_eq_mem, decide_eq_false ht] at hat
  subst hat
  obtain rfl := hs
  exact hf

theorem expect_front {x : TokenType} {u : Unit} (hw : w.cursor.Faces (t :: ts))
    (h : expect x w = .ok u w') : w'.cursor.Faces ts ∧ w'.draft = w.draft := by
  obtain ⟨-, c, hc, rfl⟩ := expect_ok.1 h
  exact ⟨hw.advance hc, rfl⟩

theorem isAtSubQuery_other (hw : w.cursor.Faces (t :: ts))
    (ht : t.type ≠ .symbol .leftParen ∨ frontType ts ≠ .keyword .SELECT)
    {f : Bool → Parser σ α} (h : (isAtSubQuery >>= f) w = .ok a w') : f false w = .ok a w' := by
  obtain ⟨b, v, hb, hf⟩ := bind_ok.1 h
  obtain ⟨rfl, hs⟩ := isAtSubQuery_ok.1 hb
  have hb : b = false := by
    split at hs
    · next hp =>
      rw [Cursor.isAt_iff, hw.type] at hp
      obtain ⟨x, hx, rfl⟩ := hs
      rw [hw.peek hx]
      simpa using ht.resolve_left fun ht => ht hp
    · exact hs
  exact hb ▸ hf

end Parser

end SqlFront

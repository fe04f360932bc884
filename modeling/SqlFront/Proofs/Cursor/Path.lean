import SqlFront.Proofs.Parser.Run

/-!
# Paths of a cursor

A cursor moves forward one token at a time, over the tokens that its text has. What stands in
front of it is a suffix of what stood in front of it before, and its text stays the same.
-/

set_option autoImplicit false

namespace SqlFront

def placeholderCount (ts : List Token) : ℕ := ts.countP fun t => t.type == .symbol .question

namespace Cursor

variable {c c₁ c₂ c' : Cursor}

/-- The tokens from the current one on, without the end of the text unless it is current. -/
def rest (c : Cursor) : List Token := c.current :: c.ahead.tokens

theorem advance_ok :
    c.advance = .ok c' ↔ ∃ t, c.peek = .ok t ∧
      c' = { c with
        current := t
        previousStop := c.current.stop
        ahead := { c.ahead with tokens := c.ahead.tokens.tail } } := by
  unfold advance
  cases c.peek with
  | ok t => simp [Except.map, eq_comm]
  | error e => simp [Except.map]

/-- The token behind the current one is the next of the text, or the end of the text. -/
theorem peek_ok {t : Token} :
    c.peek = .ok t ↔ c.ahead.tokens.head? = some t ∨
      (c.ahead.tokens = [] ∧ c.ahead.ending = .ok t) := by
  unfold peek
  cases c.ahead.tokens with
  | nil => cases h : c.ahead.ending <;> simp [Except.mapError]
  | cons x ts => simp

theorem isAt_iff {t : TokenType} : c.isAt t = true ↔ c.current.type = t := by
  simp [isAt]

theorem isAtAny_iff {ts : List TokenType} : c.isAtAny ts = true ↔ c.current.type ∈ ts := by
  simp [isAtAny]

theorem isAtAny_singleton (t : TokenType) : c.isAtAny [t] = c.isAt t := by
  rw [Bool.eq_iff_iff, isAtAny_iff, isAt_iff, List.mem_singleton]

theorem advance_dialect (h : c.advance = .ok c') : c'.dialect = c.dialect := by
  obtain ⟨t, -, rfl⟩ := advance_ok.1 h
  rfl

theorem advance_text (h : c.advance = .ok c') : c'.text = c.text := by
  obtain ⟨t, -, rfl⟩ := advance_ok.1 h
  rfl

theorem advance_ending (h : c.advance = .ok c') : c'.ahead.ending = c.ahead.ending := by
  obtain ⟨t, -, rfl⟩ := advance_ok.1 h
  rfl

/-- One step takes the first token off the rest, or stays on the end of the text. -/
theorem advance_rest (h : c.advance = .ok c') :
    c.rest = c.current :: c'.rest ∨
      (c.ahead.tokens = [] ∧ c'.rest = [c'.current] ∧ c.ahead.ending = .ok c'.current) := by
  obtain ⟨t, ht, rfl⟩ := advance_ok.1 h
  rcases peek_ok.1 ht with ht | ⟨hnil, ht⟩
  · obtain ⟨ts, hts⟩ := List.head?_eq_some_iff.1 ht
    exact Or.inl (by simp [rest, hts])
  · exact Or.inr ⟨hnil, by simp [rest, hnil], ht⟩

theorem current_of_rest {x : Token} {ts : List Token} (hr : c.rest = x :: ts) : c.current = x := by
  simp only [rest, List.cons.injEq] at hr
  exact hr.1

/-! ## Reaching and walking -/

def Reaches : Cursor → Cursor → Prop := Relation.ReflTransGen fun c c' => c.advance = .ok c'

theorem Reaches.refl (c : Cursor) : c.Reaches c := Relation.ReflTransGen.refl

theorem Reaches.single (h : c.advance = .ok c') : c.Reaches c' := Relation.ReflTransGen.single h

theorem Reaches.trans (h₁ : c.Reaches c₁) (h₂ : c₁.Reaches c₂) : c.Reaches c₂ :=
  Relation.ReflTransGen.trans h₁ h₂

theorem Reaches.text (h : c.Reaches c') : c'.text = c.text := by
  induction h with
  | refl => rfl
  | tail _ h ih => rw [advance_text h, ih]

theorem Reaches.dialect (h : c.Reaches c') : c'.dialect = c.dialect := by
  induction h with
  | refl => rfl
  | tail _ h ih => rw [advance_dialect h, ih]

theorem Reaches.ending (h : c.Reaches c') : c'.ahead.ending = c.ahead.ending := by
  induction h with
  | refl => rfl
  | tail _ h ih => rw [advance_ending h, ih]

/-- A reached cursor has a suffix of the rest in front of it, or stands behind all of it. -/
theorem Reaches.rest (h : c.Reaches c') :
    c'.rest <:+ c.rest ∨ (c'.ahead.tokens = [] ∧ c.ahead.ending = .ok c'.current) := by
  induction h with
  | refl => exact Or.inl List.suffix_rfl
  | @tail c₁ c₂ hc h ih =>
    rcases advance_rest h with hr | ⟨hnil, hr, he⟩
    · rcases ih with ih | ⟨hnil, -⟩
      · exact Or.inl ((hr ▸ List.suffix_cons _ _).trans ih)
      · simp [Cursor.rest, hnil] at hr
    · refine Or.inr ⟨?_, by rw [← Reaches.ending hc]; exact he⟩
      simpa [Cursor.rest] using hr

inductive Walk : Cursor → List Token → Cursor → Prop
  | refl (c : Cursor) : Walk c [] c
  | step {c c₁ c' : Cursor} {ts : List Token} :
      c.advance = .ok c₁ → Walk c₁ ts c' → Walk c (c.current :: ts) c'

theorem Walk.single (h : c.advance = .ok c') : Walk c [c.current] c' := .step h (.refl c')

theorem Walk.append {ts us : List Token} (h₁ : Walk c ts c₁) (h₂ : Walk c₁ us c₂) :
    Walk c (ts ++ us) c₂ := by
  induction h₁ with
  | refl => exact h₂
  | step h _ ih => exact .step h (ih h₂)

theorem Walk.reaches {ts : List Token} (h : Walk c ts c') : c.Reaches c' := by
  induction h with
  | refl => exact Reaches.refl _
  | step h _ ih => exact (Reaches.single h).trans ih

/-! ## The tokens of a text -/

/-- The ending of a stream is the end of the text or a fault. -/
theorem ending_type {d : Dialect} {n : ℕ} {before : Option Char} {offset : ℕ} {text : List Char}
    {t : Token} (h : (TokenStream.scan d n before offset text).ending = .ok t) :
    ∃ k, t = Token.atEnd k := by
  induction n generalizing before offset text with
  | zero =>
    simp only [TokenStream.scan, Except.ok.injEq] at h
    exact ⟨_, h.symm⟩
  | succ n ih =>
    unfold TokenStream.scan at h
    split at h
    · cases h
    · simp only [Except.ok.injEq] at h
      exact ⟨_, h.symm⟩
    · exact ih h
    · exact ih h

/-- Behind the first step, the current token is one of the text or its ending. -/
theorem reached_or_ending {d : Dialect} {sql : String} (hc : (ofText d sql).advance = .ok c)
    (h : c.Reaches c') : c'.current ∈ (TokenStream.ofText d sql.toList).tokens ∨
      (TokenStream.ofText d sql.toList).ending = .ok c'.current := by
  have hfirst : c.rest = (TokenStream.ofText d sql.toList).tokens ∨
      (c.rest = [c.current] ∧ (TokenStream.ofText d sql.toList).ending = .ok c.current) := by
    rcases advance_rest hc with hr | ⟨-, hr, he⟩
    · exact Or.inl (List.cons.inj hr).2.symm
    · exact Or.inr ⟨hr, he⟩
  rcases h.rest with hr | ⟨-, he⟩
  · have hmem : c'.current ∈ c.rest := hr.subset (by simp [rest])
    rcases hfirst with hf | ⟨hf, he⟩
    · exact Or.inl (hf ▸ hmem)
    · rw [hf, List.mem_singleton] at hmem
      exact Or.inr (hmem ▸ he)
  · rw [advance_ending hc] at he
    exact Or.inr he

/-- Behind the first step, the current token is one of the text or its end. -/
theorem reached_current {d : Dialect} {sql : String} (hc : (ofText d sql).advance = .ok c)
    (h : c.Reaches c') : c'.current ∈ (TokenStream.ofText d sql.toList).tokens ∨
      ∃ k, c'.current = Token.atEnd k :=
  (reached_or_ending hc h).imp_right ending_type

end Cursor

end SqlFront

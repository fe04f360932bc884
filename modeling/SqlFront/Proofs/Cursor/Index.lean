import SqlFront.Proofs.Cursor.OnDemand
import SqlFront.Proofs.Derived.Level

/-!
# The index of a cursor

The tokens of a text are counted from one, with the end of the text as the last of them and
behind it for ever. So many steps from the start, a cursor shows the token with that number, and the
one behind it as the next. It makes no difference whether the text was cut beforehand or is read
token by token.
-/

set_option autoImplicit false

namespace SqlFront

variable {d : Dialect} {sql : String} {text : List Char} {ts us : List Token} {c c' : Cursor}
  {i j : ℕ}

/-! ## Numbered tokens -/

/-- The token with this number: the one before the first for 0, and the end of the text behind all
the tokens. -/
def tokenAt (text : List Char) (ts : List Token) : ℕ → Token
  | 0 => .unread
  | i + 1 => ts.getD i (Token.atEnd text.length)

/-- What is seen from a cursor at the index `i`: the token with this number, the next one, and the
end of the one before. -/
structure ShowsAt (text : List Char) (ts : List Token) (i : ℕ) (current : Token)
    (next : Except Fault Token) (previousStop : ℕ) : Prop where
  current : current = tokenAt text ts i
  next : next = .ok (tokenAt text ts (i + 1))
  previousStop : previousStop = if i ≤ 1 then 0 else (tokenAt text ts (i - 1)).stop

section Numbered

variable (h : (TokenStream.ofText d text).all = .ok ts)

include h

theorem tokenAt_succ (i : ℕ) : tokenAt text ts (i + 1) =
    (TokenStream.ofText d text).tokens.getD i (Token.atEnd text.length) := by
  obtain ⟨-, rfl⟩ := TokenStream.all_eq h
  rw [tokenAt]
  by_cases hi : i < (TokenStream.ofText d text).tokens.length
  · rw [List.getD_append _ _ _ _ hi]
  · have hdefault := List.getD_eq_default (TokenStream.ofText d text).tokens
      (Token.atEnd text.length) (Nat.le_of_not_lt hi)
    rw [hdefault, List.getD_append_right _ _ _ _ (Nat.le_of_not_lt hi)]
    cases i - (TokenStream.ofText d text).tokens.length <;> rfl

theorem length_of_all : ts.length = (TokenStream.ofText d text).tokens.length + 1 := by
  obtain ⟨-, rfl⟩ := TokenStream.all_eq h
  rw [List.length_append, List.length_singleton]

theorem drop_of_all (hi : i < ts.length) :
    ts.drop i = (TokenStream.ofText d text).tokens.drop i ++ [Token.atEnd text.length] := by
  have hlength := length_of_all h
  obtain ⟨-, rfl⟩ := TokenStream.all_eq h
  rw [List.drop_append_of_le_length (by omega)]

/-- The end of the text is the last token, and it stays. -/
theorem tokenAt_end (hi : ts.length ≤ i) : tokenAt text ts i = Token.atEnd text.length := by
  have hlength := length_of_all h
  obtain ⟨i, rfl⟩ : ∃ k, i = k + 1 := Nat.exists_eq_add_one.2 (by omega)
  rw [tokenAt_succ h, List.getD_eq_default _ _ (by omega)]

theorem readFrom_tokenAt (i : ℕ) :
    TokenStream.readFrom d text (tokenAt text ts i).stop = .ok (tokenAt text ts (i + 1)) := by
  have hending := (TokenStream.all_eq h).1
  have hfirst : ∀ k, TokenStream.first ⟨(TokenStream.ofText d text).tokens.drop k,
      (TokenStream.ofText d text).ending⟩ = .ok (tokenAt text ts (k + 1)) := by
    intro k
    rw [tokenAt_succ h, List.getD_eq_getElem?_getD, ← List.head?_drop, TokenStream.first, hending]
    cases (TokenStream.ofText d text).tokens.drop k <;> rfl
  cases i with
  | zero => exact TokenStream.readFrom_zero.trans (hfirst 0)
  | succ i =>
    by_cases hi : i < (TokenStream.ofText d text).tokens.length
    · have hsplit := (List.take_append_drop i (TokenStream.ofText d text).tokens).symm
      rw [List.drop_eq_getElem_cons hi] at hsplit
      rw [tokenAt_succ h, List.getD_eq_getElem _ _ hi, TokenStream.readFrom_stop hsplit]
      exact hfirst (i + 1)
    · have hlength := length_of_all h
      rw [tokenAt_end h (by omega), tokenAt_end h (by omega)]
      exact TokenStream.readFrom_length

end Numbered

/-! ## Steps -/

namespace Cursor

theorem steps_succ {n : ℕ} (h : c.steps n = .ok c') : c.steps (n + 1) = c'.advance := by
  rw [steps, h]
  rfl

theorem exists_steps {n : ℕ} (h : c.steps (n + 1) = .ok c') :
    ∃ c₁, c.steps n = .ok c₁ ∧ c₁.advance = .ok c' := by
  rw [steps] at h
  cases hn : c.steps n with
  | error e =>
    rw [hn] at h
    cases h
  | ok c₁ =>
    rw [hn] at h
    exact ⟨c₁, rfl, h⟩

/-- The tokens that are moved past are steps. -/
theorem Walk.steps {c₀ : Cursor} (hw : c.Walk us c') (hc : c₀.steps i = .ok c) :
    c₀.steps (i + us.length) = .ok c' := by
  induction hw generalizing i with
  | refl => exact hc
  | @step c c₁ c' us ha _ ih =>
    have hstep := ih ((steps_succ hc).trans ha)
    rwa [Nat.add_assoc, Nat.add_comm 1] at hstep

theorem arrived_of_steps (hc : (ofText d sql).steps (i + 1) = .ok c) : Arrived d sql c := by
  induction i generalizing c with
  | zero => exact ⟨c, hc, .refl c⟩
  | succ i ih =>
    obtain ⟨c₁, hc₁, ha⟩ := exists_steps hc
    exact (ih hc₁).reaches (.single ha)

variable (h : (TokenStream.ofText d sql.toList).all = .ok ts)

include h

theorem steps_ahead (hc : (ofText d sql).steps i = .ok c) :
    c.current = tokenAt sql.toList ts i ∧
      c.ahead = ⟨(TokenStream.ofText d sql.toList).tokens.drop i,
        .ok (Token.atEnd sql.toList.length)⟩ := by
  have hending := (TokenStream.all_eq h).1
  cases i with
  | zero =>
    obtain rfl := Except.ok.inj hc
    exact ⟨rfl, by rw [← hending]; rfl⟩
  | succ i =>
    obtain ⟨c₁, hc₁, hahead, hcurrent⟩ := steps_current hending i
    obtain rfl := Except.ok.inj (hc₁.symm.trans hc)
    exact ⟨hcurrent.trans (tokenAt_succ h i).symm, hahead⟩

theorem steps_peek (hc : (ofText d sql).steps i = .ok c) :
    c.peek = .ok (tokenAt sql.toList ts (i + 1)) := by
  rw [peek, (steps_ahead h hc).2, tokenAt_succ h, List.getD_eq_getElem?_getD, ← List.head?_drop]
  cases (TokenStream.ofText d sql.toList).tokens.drop i <;> rfl

theorem steps_advance (hc : (ofText d sql).steps i = .ok c) :
    ∃ c', c.advance = .ok c' ∧ (ofText d sql).steps (i + 1) = .ok c' := by
  have ha := advance_ok.2 ⟨_, steps_peek h hc, rfl⟩
  exact ⟨_, ha, (steps_succ hc).trans ha⟩

theorem steps_previousStop (hc : (ofText d sql).steps i = .ok c) :
    c.previousStop = if i ≤ 1 then 0 else (tokenAt sql.toList ts (i - 1)).stop := by
  cases i with
  | zero =>
    obtain rfl := Except.ok.inj hc
    rfl
  | succ i =>
    obtain ⟨c₁, hc₁, ha⟩ := exists_steps hc
    obtain ⟨t, -, rfl⟩ := advance_ok.1 ha
    rw [(steps_ahead h hc₁).1]
    cases i <;> simp [tokenAt, Token.unread]

theorem steps_shows (hc : (ofText d sql).steps i = .ok c) :
    ShowsAt sql.toList ts i c.current c.peek c.previousStop :=
  ⟨(steps_ahead h hc).1, steps_peek h hc, steps_previousStop h hc⟩

theorem steps_faces (hc : (ofText d sql).steps i = .ok c) :
    c.Faces (tokenAt sql.toList ts i :: (TokenStream.ofText d sql.toList).tokens.drop i) := by
  obtain ⟨hcurrent, hahead⟩ := steps_ahead h hc
  refine ⟨fun t ht => ?_, Or.inl (by rw [rest, hcurrent, hahead])⟩
  rw [hahead] at ht
  exact ⟨_, (Except.ok.inj ht).symm⟩

end Cursor

theorem Scanner.steps_eq (h : (TokenStream.ofText d sql.toList).all = .ok ts) (i : ℕ) :
    (Scanner.ofText d sql).steps i = .ok
      { dialect := d
        text := sql.toList
        place := (tokenAt sql.toList ts i).stop
        current := tokenAt sql.toList ts i
        previousStop := if i ≤ 1 then 0 else (tokenAt sql.toList ts (i - 1)).stop } := by
  -- By induction on the steps: from its place a scanner reads the token with the next number.
  induction i with
  | zero => rfl
  | succ i ih =>
    have hprevious : (tokenAt sql.toList ts i).stop =
        if i + 1 ≤ 1 then 0 else (tokenAt sql.toList ts (i + 1 - 1)).stop := by
      cases i <;> simp [tokenAt, Token.unread]
    rw [steps, ih, ← hprevious]
    show advance _ = _
    rw [advance, peek, readFrom_tokenAt h]
    rfl

/-- After as many steps a scanner shows what a cursor shows. -/
theorem Scanner.steps_shows (h : (TokenStream.ofText d sql.toList).all = .ok ts) (i : ℕ) :
    ∃ s, (Scanner.ofText d sql).steps i = .ok s ∧
      ShowsAt sql.toList ts i s.current s.peek s.previousStop := by
  refine ⟨_, Scanner.steps_eq h i, rfl, ?_, rfl⟩
  rw [peek, readFrom_tokenAt h]
  rfl

end SqlFront

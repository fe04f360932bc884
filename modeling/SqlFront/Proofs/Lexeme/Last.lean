import SqlFront.Proofs.Lexeme.Spaced

/-!
# The last character of a lexeme

No lexeme ends with a space. A length that a space cannot extend does not pass one, and what is
quoted ends with a quote.
-/

set_option autoImplicit false

namespace SqlFront

variable {d : Dialect} {before : Option Char} {w v : List Char} {x : Lexeme} {q c : Char} {n : ℕ}

theorem Bounded.le_of_space {f : List Char → ℕ} (hf : Bounded f) (hle : f w ≤ w.length) :
    f (w ++ ' ' :: v) ≤ w.length := by
  have hend : f (w ++ []) ≤ w.length := by rwa [List.append_nil]
  rw [hf w [] v hend]
  exact hend

theorem Quoted.length?_ne (hq : q ≠ ' ') (h : length? q (w ++ ' ' :: v) = some n)
    (hw : w ≠ []) : n ≠ w.length + 1 := by
  obtain ⟨c, w, rfl⟩ := List.exists_cons_of_ne_nil hw
  obtain ⟨m, hm, rfl⟩ := Option.map_eq_some_iff.1 h
  obtain ⟨content, r, hsplit, rfl⟩ := closing?_content hm
  rintro hlen
  have hsame : w.length = content.length := by simpa using hlen.symm
  have hquote := (List.append_inj hsplit hsame).2
  exact hq (List.cons.inj hquote).1.symm

namespace Lexeme

theorem signedLength_le {p : Char → Bool} (hc : c ≠ endMark) (r : List Char) :
    signedLength c p r ≤ r.length := by
  unfold signedLength
  apply add_takeWhile_le
  split
  · next hfront => exact lt_length_of_charAt (by rwa [hfront])
  · exact Nat.zero_le _

theorem numberLength_le (r : List Char) : numberLength r ≤ r.length :=
  add_le_of_drop suffixLength_le (add_le_of_drop exponentLength_le (add_le_of_drop fractionLength_le
    (signedLength_le (by decide) r)))

theorem exists_cons_of_front (hq : charAt (w ++ ' ' :: v) 0 ≠ ' ') : ∃ c r, w = c :: r := by
  apply List.exists_cons_of_ne_nil
  rintro rfl
  exact hq rfl

theorem variableName_ne (h : charAt (w ++ ' ' :: v) 0 = '@') :
    (variableName (w ++ ' ' :: v)).length ≠ w.length + 1 := by
  obtain ⟨c, w, rfl⟩ := exists_cons_of_front (w := w) (v := v) (by rw [h]; decide)
  have hle := (bounded_signed (c := '@') (p := Character.isVariable) (by decide)
    (by decide)).le_of_space (v := v) (signedLength_le (by decide) w)
  rw [List.cons_append, variableName_eq]
  simp only [ofFront, List.length_cons]
  omega

theorem hexNumber_ne (h : charAt (w ++ ' ' :: v) 0 = '0')
    (hx : charAt (w ++ ' ' :: v) 1 ≠ ' ') : (hexNumber (w ++ ' ' :: v)).length ≠ w.length + 1 := by
  match w with
  | [] =>
    have hspace : ' ' = '0' := h
    exact absurd hspace (by decide)
  | [c] => exact (hx rfl).elim
  | c :: c' :: w =>
    have hle := (bounded_signed (c := '-') (p := Character.isHexDigit) (by decide)
      (by decide)).le_of_space (v := v) (signedLength_le (by decide) w)
    rw [List.cons_append, List.cons_append, hexNumber_eq]
    simp only [ofFront, List.length_cons]
    omega

theorem number_ne : (number (w ++ ' ' :: v)).length ≠ w.length + 1 :=
  Nat.ne_of_lt (Nat.lt_succ_of_le (bounded_number.le_of_space (numberLength_le w)))

theorem quotedString_ne (h : quotedString (w ++ ' ' :: v) = .ok x)
    (hq : charAt (w ++ ' ' :: v) 0 ≠ ' ') : x.length ≠ w.length + 1 := by
  have hw : w ≠ [] := by
    obtain ⟨c, r, rfl⟩ := exists_cons_of_front hq
    simp
  simp only [quotedString] at h
  split at h
  · next n hn =>
    obtain rfl := Except.ok.inj h
    exact Quoted.length?_ne hq hn hw
  · cases h

theorem word_ne (h : word d (w ++ ' ' :: v) = .ok x) (hq : charAt (w ++ ' ' :: v) 0 ≠ ' ') :
    x.length ≠ w.length + 1 := by
  obtain ⟨c, r, rfl⟩ := exists_cons_of_front hq
  simp only [word] at h
  split at h
  · next hquote =>
    simp only [quotedWord] at h
    split at h
    · next n hn =>
      obtain rfl := Except.ok.inj h
      refine Quoted.length?_ne ?_ hn (by simp)
      rcases hquote with hc | hc | hc <;> rw [hc] <;> decide
    · cases h
  · obtain rfl := Except.ok.inj h
    have hword : Bounded fun r => (r.takeWhile Character.isWord).length := .takeWhile (by decide)
    have hle := hword.le_of_space (w := c :: r) (v := v) (List.takeWhile_prefix _).length_le
    exact Nat.ne_of_lt (Nat.lt_succ_of_le hle)

theorem symbol_ne (h : symbol (w ++ ' ' :: v) = .ok x) : x.length ≠ w.length + 1 := by
  simp only [symbol] at h
  split at h
  · next s k hs =>
    obtain rfl := Except.ok.inj h
    obtain ⟨-, hk⟩ := longestSymbol?_length hs
    have hrun := run_spaced (w := w) (a := []) (v := v) (p := Character.isSymbol) (by decide)
    dsimp only
    omega
  · cases h

end Lexeme

theorem Piece.significant_ne (h : significant d before (w ++ ' ' :: v) = .ok (.lexeme x)) :
    x.length ≠ w.length + 1 := by
  cases significant_reads h with
  | variableName hat => exact Lexeme.variableName_ne hat
  | @national y hn hquote hy =>
    obtain ⟨c, r, rfl⟩ : ∃ c r, w = c :: r :=
      Lexeme.exists_cons_of_front (v := v) (by rcases hn with h | h <;> rw [h] <;> decide)
    have hsecond : charAt (r ++ ' ' :: v) 0 = '\'' := hquote
    have hne := Lexeme.quotedString_ne (w := r) (v := v) hy (by rw [hsecond]; decide)
    simpa using hne
  | word hword hx =>
    refine Lexeme.word_ne hx fun hfront => ?_
    rw [hfront] at hword
    cases d <;> exact absurd hword (by decide)
  | hex hzero hmark =>
    refine Lexeme.hexNumber_ne hzero ?_
    rcases hmark with hx | hx <;> rw [hx] <;> decide
  | number _ => exact Lexeme.number_ne
  | symbol hx => exact Lexeme.symbol_ne hx
  | string hquote hx =>
    refine Lexeme.quotedString_ne hx fun hfront => ?_
    rw [hfront] at hquote
    exact absurd hquote (by decide)

end SqlFront

import SqlFront.Proofs.Lexeme.Tiling

/-!
# A space behind what is read

Whatever is read from a text is read from it as well when a space and any other text follow where
the reading ended or later. Each reader takes what it has looked at as far as the looking succeeded,
and no lexeme goes on over a space.
-/

set_option autoImplicit false

namespace SqlFront

variable {d : Dialect} {before : Option Char} {w a v : List Char} {n m : ℕ}

/-! ## Characters -/

theorem charAt_append (h : n < w.length) : charAt (w ++ a) n = charAt w n := by
  unfold charAt
  rw [List.getD_append _ _ _ _ h]

theorem charAt_drop {r : List Char} : charAt (r.drop n) m = charAt r (n + m) := by
  simp [charAt]

theorem charAt_behind {c : Char} : charAt (w ++ c :: v) w.length = c := by
  unfold charAt
  rw [List.getD_append_right _ _ _ _ (Nat.le_refl _), Nat.sub_self]
  rfl

theorem charAt_spaced (h : n ≤ w.length) : charAt (w ++ ' ' :: v) n = charAt (w ++ a) n ∨
    (n = w.length ∧ charAt (w ++ ' ' :: v) n = ' ') := by
  rcases Nat.lt_or_eq_of_le h with h | rfl
  · exact Or.inl (by rw [charAt_append h, charAt_append h])
  · exact Or.inr ⟨rfl, charAt_behind⟩

theorem take_spaced (h : n ≤ w.length) : (w ++ ' ' :: v).take n = (w ++ a).take n := by
  rw [List.take_append_of_le_length h, List.take_append_of_le_length h]

/-! ## Lengths -/

def Bounded (f : List Char → ℕ) : Prop :=
  ∀ w a v, f (w ++ a) ≤ w.length → f (w ++ ' ' :: v) = f (w ++ a)

theorem takeWhile_spaced {p : Char → Bool} (hp : p ' ' = false)
    (h : ((w ++ a).takeWhile p).length ≤ w.length) :
    (w ++ ' ' :: v).takeWhile p = (w ++ a).takeWhile p := by
  rw [List.takeWhile_append] at h
  rw [List.takeWhile_append, List.takeWhile_append]
  split at h
  · next hall =>
    rw [List.length_append] at h
    have hnil : a.takeWhile p = [] := List.eq_nil_of_length_eq_zero (by omega)
    simp [hall, hp, hnil]
  · next hsome => rw [if_neg hsome, if_neg hsome]

theorem Bounded.takeWhile {p : Char → Bool} (hp : p ' ' = false) :
    Bounded fun r => (r.takeWhile p).length :=
  fun _ _ _ h => congrArg List.length (takeWhile_spaced hp h)

theorem Bounded.zero : Bounded fun _ => 0 := fun _ _ _ _ => rfl

/-- One length behind another. -/
theorem Bounded.add {f g : List Char → ℕ} (hf : Bounded f) (hg : Bounded g) :
    Bounded fun r => f r + g (r.drop (f r)) := by
  intro w a v h
  simp only at h ⊢
  have hfront : f (w ++ a) ≤ w.length := by omega
  have hrest : ∀ b, (w ++ b).drop (f (w ++ a)) = w.drop (f (w ++ a)) ++ b :=
    fun _ => List.drop_append_of_le_length hfront
  rw [hrest] at h
  rw [hf w a v hfront, hrest, hrest, hg _ a v (by rw [List.length_drop]; omega)]

/-- A first character and a length behind it. -/
theorem Bounded.front {p : Char → Bool} {f : List Char → ℕ} (hp : p ' ' = false)
    (hf : Bounded f) : Bounded fun r => if p (charAt r 0) then 1 + f (r.drop 1) else 0 := by
  intro w a v h
  cases w with
  | nil =>
    have hfirst : p (charAt a 0) = false := by
      cases hc : p (charAt a 0) with
      | true =>
        simp only [List.nil_append, hc, if_true, List.length_nil] at h
        omega
      | false => rfl
    have hspace : charAt (' ' :: v) 0 = ' ' := rfl
    simp [hfirst, hspace, hp]
  | cons c w =>
    have hfirst : ∀ b, charAt (c :: (w ++ b)) 0 = c := fun _ => rfl
    simp only [List.cons_append, List.drop_succ_cons, List.drop_zero, hfirst] at h ⊢
    cases hc : p c with
    | true =>
      simp only [hc, if_true, List.length_cons] at h
      rw [if_pos rfl, if_pos rfl, hf w a v (by omega)]
    | false => rfl

/-! ## Numbers -/

namespace Lexeme

theorem bounded_digits : Bounded digits := .takeWhile (by decide)

def signedLength (c : Char) (p : Char → Bool) (r : List Char) : ℕ :=
  let sign := if charAt r 0 = c then 1 else 0
  sign + ((r.drop sign).takeWhile p).length

theorem bounded_signed {c : Char} {p : Char → Bool} (hc : ' ' ≠ c) (hp : p ' ' = false) :
    Bounded (signedLength c p) := by
  have hsign : Bounded fun r => if charAt r 0 = c then 1 else 0 := by
    simpa using Bounded.front (p := (· == c)) (beq_eq_false_iff_ne.2 hc) .zero
  exact hsign.add (.takeWhile hp)

theorem bounded_fraction : Bounded fractionLength := by
  have h : Bounded fun r => if charAt r 0 = '.' then 1 + digits (r.drop 1) else 0 := by
    simpa using Bounded.front (p := (· == '.')) (by decide) bounded_digits
  exact h

theorem bounded_exponent : Bounded exponentLength := by
  have hsign : Bounded fun r => if charAt r 0 = '+' ∨ charAt r 0 = '-' then 1 else 0 := by
    simpa using Bounded.front (p := fun c => c == '+' || c == '-') (by decide) .zero
  have h := Bounded.front (p := fun c => c == 'e' || c == 'E') (by decide)
    (hsign.add bounded_digits)
  have hexponent : exponentLength = fun r => if charAt r 0 == 'e' || charAt r 0 == 'E' then
      1 + ((if charAt (r.drop 1) 0 = '+' ∨ charAt (r.drop 1) 0 = '-' then 1 else 0) +
        digits ((r.drop 1).drop
          (if charAt (r.drop 1) 0 = '+' ∨ charAt (r.drop 1) 0 = '-' then 1 else 0))) else 0 := by
    funext r
    have hsecond : charAt (r.drop 1) 0 = charAt r 1 := by simp [charAt]
    simp only [exponentLength, hsecond, Bool.or_eq_true, beq_iff_eq, List.drop_drop]
    split
    · split
      · exact Nat.add_assoc 1 1 _
      · exact congrArg (1 + ·) (Nat.zero_add _).symm
    · rfl
  rw [hexponent]
  exact h

theorem bounded_suffix : Bounded suffixLength := by
  have h : Bounded fun r => if charAt r 0 = 'f' ∨ charAt r 0 = 'F' ∨ charAt r 0 = 'd' ∨
      charAt r 0 = 'D' then 1 else 0 := by
    simpa [or_assoc] using Bounded.front
      (p := fun c => c == 'f' || c == 'F' || c == 'd' || c == 'D') (by decide) .zero
  exact h

def wholeLength : List Char → ℕ := signedLength '-' Character.isDigit

def numberLength (r : List Char) : ℕ :=
  let fraction := wholeLength r + fractionLength (r.drop (wholeLength r))
  let exponent := fraction + exponentLength (r.drop fraction)
  exponent + suffixLength (r.drop exponent)

theorem number_eq (r : List Char) : number r =
    ofFront (if numberLength r = wholeLength r then .int else .float) (numberLength r) r := rfl

theorem bounded_whole : Bounded wholeLength := bounded_signed (by decide) (by decide)

theorem bounded_number : Bounded numberLength :=
  ((bounded_whole.add bounded_fraction).add bounded_exponent).add bounded_suffix

theorem wholeLength_le (r : List Char) : wholeLength r ≤ numberLength r :=
  ((Nat.le_add_right _ _).trans (Nat.le_add_right _ _)).trans (Nat.le_add_right _ _)

theorem ofFront_spaced {kind : Literal} (h : n ≤ w.length) :
    ofFront kind n (w ++ ' ' :: v) = ofFront kind n (w ++ a) := by
  rw [ofFront, take_spaced h, ofFront]

theorem number_spaced (h : (number (w ++ a)).length ≤ w.length) :
    number (w ++ ' ' :: v) = number (w ++ a) := by
  replace h : numberLength (w ++ a) ≤ w.length := h
  have hwhole := (wholeLength_le (w ++ a)).trans h
  rw [number_eq, number_eq, bounded_number w a v h, bounded_whole w a v hwhole, ofFront_spaced h]

theorem hexNumber_eq (c c' : Char) (r : List Char) : hexNumber (c :: c' :: r) =
    ofFront .hex (2 + signedLength '-' Character.isHexDigit r) (c :: c' :: r) := by
  have hsign : charAt (c :: c' :: r) 2 = charAt r 0 := rfl
  simp only [hexNumber, hsign, signedLength]
  split
  · exact congrArg (fun n => ofFront .hex n (c :: c' :: r)) (Nat.add_assoc 2 1 _)
  · simp

theorem hexNumber_length (r : List Char) : 2 ≤ (hexNumber r).length := by
  simp only [hexNumber, ofFront]
  split <;> omega

theorem hexNumber_spaced (h : (hexNumber (w ++ a)).length ≤ w.length) :
    hexNumber (w ++ ' ' :: v) = hexNumber (w ++ a) := by
  have hlen := hexNumber_length (w ++ a)
  match w with
  | [] | [_] =>
    simp only [List.length_nil, List.length_singleton] at h
    omega
  | c :: c' :: w =>
    simp only [List.cons_append, hexNumber_eq] at h ⊢
    simp only [ofFront, List.length_cons] at h
    rw [bounded_signed (by decide) (by decide) w a v (by omega)]
    exact ofFront_spaced (w := c :: c' :: w) (by simp only [List.length_cons]; omega)

theorem variableName_eq (c : Char) (r : List Char) : variableName (c :: r) =
    ofFront .variable (1 + signedLength '@' Character.isVariable r) (c :: r) := by
  have hsign : charAt (c :: r) 1 = charAt r 0 := rfl
  simp only [variableName, hsign, signedLength]
  split
  · exact congrArg (fun n => ofFront .variable n (c :: r)) (Nat.add_assoc 1 1 _)
  · simp

theorem variableName_spaced (h : (variableName (w ++ a)).length ≤ w.length) :
    variableName (w ++ ' ' :: v) = variableName (w ++ a) := by
  have hlen : 1 ≤ (variableName (w ++ a)).length := by
    simp only [variableName, ofFront]
    split <;> omega
  cases w with
  | nil =>
    simp only [List.length_nil] at h
    omega
  | cons c w =>
    simp only [List.cons_append, variableName_eq] at h ⊢
    simp only [ofFront, List.length_cons] at h
    rw [bounded_signed (by decide) (by decide) w a v (by omega)]
    exact ofFront_spaced (w := c :: w) (by simp only [List.length_cons]; omega)

end Lexeme

/-! ## Quotes -/

namespace Quoted

theorem closing?_spaced {q : Char} (hq : q ≠ ' ') (h : closing? q (w ++ a) = some n)
    (hn : n ≤ w.length) : closing? q (w ++ ' ' :: v) = some n := by
  induction w using closing?.induct q generalizing n with
  | case1 =>
    obtain ⟨content, r, -, rfl⟩ := closing?_content h
    simp at hn
  | case2 c | case3 c =>
    obtain ⟨content, r, hsplit, rfl⟩ := closing?_content h
    obtain rfl : content = [] := List.eq_nil_of_length_eq_zero (by simpa using hn)
    obtain ⟨rfl, -⟩ := List.cons.inj hsplit
    simp [closing?, hq.symm]
  | case4 rest ih =>
    simp only [List.cons_append, closing?, if_true] at h ⊢
    obtain ⟨m, hm, rfl⟩ := Option.map_eq_some_iff.1 h
    rw [ih hm (by simpa using hn)]
    rfl
  | case5 c' rest hc' =>
    simpa [closing?, hc'] using h
  | case6 c c' rest hc ih =>
    simp only [List.cons_append, closing?, if_neg hc] at h ⊢
    obtain ⟨m, hm, rfl⟩ := Option.map_eq_some_iff.1 h
    rw [← List.cons_append, ih hm (by simpa using hn)]
    rfl

theorem length?_spaced {q c : Char} (hq : q ≠ ' ') (h : length? q (c :: (w ++ a)) = some n)
    (hn : n ≤ w.length + 1) : length? q (c :: (w ++ ' ' :: v)) = some n := by
  simp only [length?, List.tail_cons] at h ⊢
  obtain ⟨m, hm, rfl⟩ := Option.map_eq_some_iff.1 h
  rw [closing?_spaced hq hm (by omega)]
  rfl

end Quoted

/-! ## Symbols -/

namespace Lexeme

theorem longestSymbol?_of_le {r : List Char} {s : Symbol} {k : ℕ}
    (h : longestSymbol? r n = some (s, k)) (hk : k ≤ m) (hm : m ≤ n) :
    longestSymbol? r m = some (s, k) := by
  induction n with
  | zero => cases h
  | succ n ih =>
    rcases Nat.lt_or_eq_of_le hm with hlt | rfl
    · rw [longestSymbol?] at h
      split at h
      · cases h
        omega
      · exact ih h (by omega)
    · exact h

theorem longestSymbol?_spaced (h : m ≤ w.length) :
    longestSymbol? (w ++ ' ' :: v) m = longestSymbol? (w ++ a) m := by
  induction m with
  | zero => rfl
  | succ m ih => rw [longestSymbol?, longestSymbol?, take_spaced (a := a) h, ih (by omega)]

theorem run_spaced {p : Char → Bool} (hp : p ' ' = false) :
    ((w ++ ' ' :: v).takeWhile p).length = min ((w ++ a).takeWhile p).length w.length := by
  induction w with
  | nil => simp [hp]
  | cons c w ih =>
    simp only [List.cons_append, List.takeWhile_cons, List.length_cons]
    cases p c with
    | true =>
      simp only [if_true, List.length_cons, ih]
      omega
    | false => simp

theorem symbol_spaced {x : Lexeme} (h : symbol (w ++ a) = .ok x) (hx : x.length ≤ w.length) :
    symbol (w ++ ' ' :: v) = .ok x := by
  simp only [symbol] at h ⊢
  split at h
  · next s k hs =>
    obtain rfl := Except.ok.inj h
    obtain ⟨-, hk⟩ := longestSymbol?_length hs
    have hrun := run_spaced (w := w) (a := a) (v := v) (p := Character.isSymbol) (by decide)
    rw [hrun, longestSymbol?_spaced (a := a) (Nat.min_le_right _ _),
      longestSymbol?_of_le hs (Nat.le_min.2 ⟨hk, hx⟩) (Nat.min_le_left _ _)]
    simp only [take_spaced (a := a) hx]
  · cases h

/-! ## Strings and words -/

theorem quotedString_spaced {x : Lexeme} (hq : charAt (w ++ a) 0 ≠ ' ')
    (h : quotedString (w ++ a) = .ok x) (hx : x.length ≤ w.length) (hw : w ≠ []) :
    quotedString (w ++ ' ' :: v) = .ok x := by
  obtain ⟨c, w, rfl⟩ := List.exists_cons_of_ne_nil hw
  have hfirst : ∀ b, charAt (c :: (w ++ b)) 0 = c := fun _ => rfl
  simp only [quotedString, List.cons_append, hfirst] at hq h ⊢
  split at h
  · next n hn =>
    obtain rfl := Except.ok.inj h
    rw [Quoted.length?_spaced hq hn hx]
    simp only [slice]
    rw [← List.cons_append, ← List.cons_append, take_spaced (a := a)]
    simp only at hx
    omega
  · cases h

structure Retyped (d : Dialect) (x y : Lexeme) (r s : List Char) : Prop where
  literals : y.literals = x.literals
  length : y.length = x.length
  type : y.type = x.type ∨ (x.type = wordType d x.literals (r.drop x.length) ∧
    y.type = wordType d x.literals (s.drop x.length))

theorem Retyped.refl (x : Lexeme) (r s : List Char) : Retyped d x x r s := ⟨rfl, rfl, Or.inl rfl⟩

theorem word_spaced {x : Lexeme} (hw : w ≠ []) (hfront : charAt (w ++ a) 0 ≠ ' ')
    (h : word d (w ++ a) = .ok x) (hx : x.length ≤ w.length) :
    ∃ y, word d (w ++ ' ' :: v) = .ok y ∧ Retyped d x y (w ++ a) (w ++ ' ' :: v) := by
  obtain ⟨c, w, rfl⟩ := List.exists_cons_of_ne_nil hw
  have hfirst : ∀ b, charAt (c :: w ++ b) 0 = c := fun _ => rfl
  simp only [word, hfirst] at hfront h ⊢
  split at h
  · next hquote =>
    rw [if_pos hquote]
    refine ⟨x, ?_, .refl x _ _⟩
    have hterm : Quoted.terminator c ≠ ' ' := by
      rcases hquote with rfl | rfl | rfl <;> decide
    simp only [quotedWord, hfirst] at h ⊢
    split at h
    · next n hn =>
      obtain rfl := Except.ok.inj h
      rw [List.cons_append, Quoted.length?_spaced hterm hn hx]
      exact congrArg Except.ok (ofFront_spaced (w := c :: w) hx)
    · cases h
  · next hquote =>
    rw [if_neg hquote]
    obtain rfl := Except.ok.inj h
    have hword : (c :: w ++ ' ' :: v).takeWhile Character.isWord =
        (c :: w ++ a).takeWhile Character.isWord := takeWhile_spaced (by decide) hx
    refine ⟨bareWord d (c :: w ++ ' ' :: v), rfl, ?_, ?_, Or.inr ⟨?_, ?_⟩⟩ <;>
      simp only [bareWord, hword]

end Lexeme

/-! ## Lexemes in front -/

namespace Piece

open Lexeme

theorem nationalString_ok {x : Lexeme} {r : List Char} (hquote : charAt r 1 = '\'')
    (h : nationalString r = .ok (.lexeme x)) : ∃ y, quotedString (r.drop 1) = .ok y ∧
      2 ≤ y.length ∧ x = { y with length := y.length + 1 } := by
  simp only [nationalString] at h
  split at h
  · next y hy =>
    have hfull : r.drop 1 ≠ [] := by
      intro hnil
      have hend : charAt r 1 = charAt (r.drop 1) 0 := by rw [charAt_drop]
      rw [hend, hnil] at hquote
      exact absurd hquote (by decide)
    obtain ⟨q, content, r', -, -, rfl⟩ := quotedString_ok hy hfull
    exact ⟨_, hy, Nat.le_add_left 2 _, (Piece.lexeme.inj (Except.ok.inj h)).symm⟩
  · cases h

theorem nationalString_spaced {x : Lexeme} (hquote : charAt (w ++ a) 1 = '\'')
    (h : nationalString (w ++ a) = .ok (.lexeme x)) (hx : x.length ≤ w.length) :
    nationalString (w ++ ' ' :: v) = .ok (.lexeme x) := by
  obtain ⟨y, hy, hlen, rfl⟩ := nationalString_ok hquote h
  have hthree : 3 ≤ w.length := (Nat.succ_le_succ hlen).trans hx
  match w with
  | [] | [_] =>
    simp only [List.length_nil, List.length_singleton] at hthree
    omega
  | c :: c' :: w =>
    simp only [List.cons_append, List.drop_succ_cons, List.drop_zero, List.length_cons] at hy hx
    have hsecond : c' = '\'' := hquote
    have hfront : c' ≠ ' ' := by
      rw [hsecond]
      decide
    have hspaced := quotedString_spaced (w := c' :: w) (v := v) hfront hy
      (by simp only [List.length_cons]; omega) (by simp)
    simp only [nationalString, List.cons_append, List.drop_succ_cons, List.drop_zero]
    rw [← List.cons_append, hspaced]

theorem digits_pos {r : List Char} (h : Character.isDigit (charAt r 0) = true) :
    0 < digits r := by
  cases r with
  | nil => cases h
  | cons c r =>
    have hc : Character.isDigit c = true := h
    simp [digits, hc]

theorem digits_zero {r : List Char} (h : Character.isDigit (charAt r 0) = false) :
    digits r = 0 := by
  cases r with
  | nil => rfl
  | cons c r =>
    have hc : Character.isDigit c = false := h
    simp [digits, hc]

theorem point_length {r : List Char} (hpoint : charAt r 0 = '.')
    (hdigit : Character.isDigit (charAt r 1) = true) : 2 ≤ fractionLength r := by
  have hpos := digits_pos (r := r.drop 1) (by rwa [charAt_drop])
  rw [fractionLength, if_pos hpoint]
  omega

theorem le_numberLength (r : List Char) :
    wholeLength r + fractionLength (r.drop (wholeLength r)) ≤ numberLength r :=
  (Nat.le_add_right _ _).trans (Nat.le_add_right _ _)

theorem number_point {r : List Char} (hpoint : charAt r 0 = '.')
    (hdigit : Character.isDigit (charAt r 1) = true) : 2 ≤ numberLength r := by
  have hwhole : wholeLength r = 0 := by
    have hzero := digits_zero (r := r) (by rw [hpoint]; decide)
    have hsign : charAt r 0 ≠ '-' := by rw [hpoint]; decide
    simp only [wholeLength, signedLength, if_neg hsign, List.drop_zero, Nat.zero_add]
    exact hzero
  have hle := le_numberLength r
  have hlength := point_length hpoint hdigit
  rw [hwhole, List.drop_zero] at hle
  omega

theorem number_sign {r : List Char} (hsign : charAt r 0 = '-') :
    (Character.isDigit (charAt r 1) = true → 2 ≤ numberLength r) ∧
      (charAt r 1 = '.' → Character.isDigit (charAt r 2) = true → 3 ≤ numberLength r) := by
  have hwhole : wholeLength r = 1 + digits (r.drop 1) := by
    simp only [wholeLength, signedLength, if_pos hsign]
    rfl
  have hle := le_numberLength r
  constructor
  · intro hdigit
    have hpos := digits_pos (r := r.drop 1) (by rwa [charAt_drop])
    omega
  · intro hpoint hdigit
    have hzero := digits_zero (r := r.drop 1) (by rw [charAt_drop, hpoint]; decide)
    rw [hwhole, hzero] at hle
    have hlength := point_length (r := r.drop (1 + 0)) (by rwa [charAt_drop])
      (by rwa [charAt_drop])
    omega

theorem beginsNumber_eq {lexis : Lexis} (r : List Char) : beginsNumber lexis before r =
    (Character.isDigit (charAt r 0) ||
      (charAt r 0 == '.' && (Character.isDigit (charAt r 1) && !before.any (beginsWord lexis))) ||
      (charAt r 0 == '-' && (Character.isDigit (charAt r 1) ||
        (charAt r 1 == '.' && (Character.isDigit (charAt r 2) &&
          !before.any (beginsWord lexis)))))) := by
  unfold beginsNumber
  by_cases hpoint : charAt r 0 = '.'
  · simp [hpoint]
  · have hother : (charAt r 0 == '.') = false := beq_eq_false_iff_ne.2 hpoint
    by_cases hsign : charAt r 0 = '-'
    · simp [hsign, Bool.and_assoc]
    · have hnone : (charAt r 0 == '-') = false := beq_eq_false_iff_ne.2 hsign
      simp [hother, hnone]

theorem beginsNumber_length {lexis : Lexis} {r : List Char}
    (h : beginsNumber lexis before r = true) (hd : Character.isDigit (charAt r 0) = false) :
    2 ≤ numberLength r ∧ (charAt r 1 = '.' → 3 ≤ numberLength r) := by
  have hfull : Character.isDigit '.' = false := by decide
  simp only [beginsNumber_eq, hd, Bool.false_or, Bool.or_eq_true, Bool.and_eq_true,
    beq_iff_eq] at h
  rcases h with ⟨hpoint, hdigit, -⟩ | ⟨hsign, hdigit | ⟨hpoint, hdigit, -⟩⟩
  · refine ⟨number_point hpoint hdigit, fun hsecond => ?_⟩
    simp [hsecond, hfull] at hdigit
  · refine ⟨(number_sign hsign).1 hdigit, fun hsecond => ?_⟩
    simp [hsecond, hfull] at hdigit
  · have hlength := (number_sign hsign).2 hpoint hdigit
    exact ⟨by omega, fun _ => hlength⟩

theorem beginsNumber_spaced {lexis : Lexis} (hw : w ≠ [])
    (h : beginsNumber lexis before (w ++ a) = true → numberLength (w ++ a) ≤ w.length) :
    beginsNumber lexis before (w ++ ' ' :: v) = beginsNumber lexis before (w ++ a) := by
  have hlength := @beginsNumber_length before lexis (w ++ a)
  have hspace : Character.isDigit ' ' = false := by decide
  match w with
  | [c] =>
    cases hd : Character.isDigit c with
    | true => simp [beginsNumber, charAt, hd]
    | false =>
      have hnone : beginsNumber lexis before ([c] ++ a) = false := by
        rw [Bool.eq_false_iff]
        intro hb
        have htwo := (hlength hb hd).1
        have hone := h hb
        simp only [List.length_singleton] at hone
        omega
      rw [hnone, beginsNumber_eq]
      simp [charAt, hd, hspace]
  | [c, c'] =>
    cases hd : Character.isDigit c with
    | true => simp [beginsNumber, charAt, hd]
    | false =>
      by_cases hpoint : c' = '.'
      · have hnone : beginsNumber lexis before ([c, c'] ++ a) = false := by
          rw [Bool.eq_false_iff]
          intro hb
          have hthree := (hlength hb hd).2 hpoint
          have htwo := h hb
          simp only [List.length_cons, List.length_nil] at htwo
          omega
        have hfull : Character.isDigit '.' = false := by decide
        rw [hnone, beginsNumber_eq]
        simp [charAt, hd, hpoint, hfull, hspace]
      · have hother : (c' == '.') = false := beq_eq_false_iff_ne.2 hpoint
        rw [beginsNumber_eq, beginsNumber_eq]
        simp [charAt, hother]
  | c :: c' :: c'' :: w => rfl

/-! ### Kinds of lexemes -/

inductive Kind
  | variableName | national | word | hex | number | symbol | string | other

def beginsNational (lexis : Lexis) (rest : List Char) : Bool :=
  lexis.nationalStrings && (charAt rest 0 == 'N' || charAt rest 0 == 'n') && charAt rest 1 == '\''

def beginsHex (rest : List Char) : Bool :=
  charAt rest 0 == '0' && (charAt rest 1 == 'x' || charAt rest 1 == 'X')

def kind (d : Dialect) (before : Option Char) (rest : List Char) : Kind :=
  if d.lexis.atVariables && charAt rest 0 == '@' then .variableName
  else if beginsNational d.lexis rest then .national
  else if beginsWord d.lexis (charAt rest 0) then .word
  else if beginsHex rest then .hex
  else if beginsNumber d.lexis before rest then .number
  else if Character.isSymbol (charAt rest 0) then .symbol
  else if charAt rest 0 == '\'' || charAt rest 0 == '"' then .string
  else .other

def ofKind (d : Dialect) (rest : List Char) : Kind → Except LexicalFault Piece
  | .variableName => .ok (.lexeme (variableName rest))
  | .national => nationalString rest
  | .word => here (Lexeme.word d rest)
  | .hex => .ok (.lexeme (hexNumber rest))
  | .number => .ok (.lexeme (number rest))
  | .symbol => here (Lexeme.symbol rest)
  | .string => here (quotedString rest)
  | .other => if rest.isEmpty then .ok .atEnd else .error ⟨0, .illegalCharacter (charAt rest 0)⟩

theorem significant_eq (rest : List Char) :
    significant d before rest = ofKind d rest (kind d before rest) := by
  simp only [kind, apply_ite (ofKind d rest)]
  rfl

theorem front_spaced (hw : w ≠ []) : charAt (w ++ ' ' :: v) 0 = charAt (w ++ a) 0 := by
  have hpos := List.length_pos_iff.2 hw
  rw [charAt_append hpos, charAt_append hpos]

theorem second_spaced {q : Char} (hw : w ≠ []) (hq : q ≠ ' ')
    (h : charAt (w ++ a) 1 = q → 2 ≤ w.length) :
    (charAt (w ++ ' ' :: v) 1 == q) = (charAt (w ++ a) 1 == q) := by
  rcases charAt_spaced (a := a) (v := v) (List.length_pos_iff.2 hw) with heq | ⟨hone, heq⟩
  · rw [heq]
  · have hnot : charAt (w ++ a) 1 ≠ q := fun hfound => by
      have htwo := h hfound
      omega
    rw [heq, beq_eq_false_iff_ne.2 hq.symm, beq_eq_false_iff_ne.2 hnot]

theorem beginsNational_spaced {lexis : Lexis} (hw : w ≠ [])
    (h : beginsNational lexis (w ++ a) = true → 2 ≤ w.length) :
    beginsNational lexis (w ++ ' ' :: v) = beginsNational lexis (w ++ a) := by
  simp only [beginsNational, front_spaced (v := v) (a := a) hw] at h ⊢
  cases hfront : lexis.nationalStrings &&
      (charAt (w ++ a) 0 == 'N' || charAt (w ++ a) 0 == 'n') with
  | false => rfl
  | true =>
    refine second_spaced hw (by decide) fun hquote => h ?_
    rw [hfront, hquote]
    rfl

theorem beginsHex_spaced (hw : w ≠ []) (h : beginsHex (w ++ a) = true → 2 ≤ w.length) :
    beginsHex (w ++ ' ' :: v) = beginsHex (w ++ a) := by
  simp only [beginsHex, front_spaced (v := v) (a := a) hw] at h ⊢
  cases hfront : charAt (w ++ a) 0 == '0' with
  | false => rfl
  | true =>
    rw [hfront, Bool.true_and] at h
    rw [second_spaced hw (by decide) fun hx => h (by rw [hx]; rfl),
      second_spaced hw (by decide) fun hx => h (by rw [hx]; rfl)]

theorem kind_spaced {x : Lexeme} (hw : w ≠ [])
    (h : ofKind d (w ++ a) (kind d before (w ++ a)) = .ok (.lexeme x)) (hx : x.length ≤ w.length) :
    kind d before (w ++ ' ' :: v) = kind d before (w ++ a) := by
  unfold kind at h ⊢
  simp only [front_spaced (v := v) (a := a) hw]
  by_cases hvariable : (d.lexis.atVariables && charAt (w ++ a) 0 == '@') = true
  · simp only [if_pos hvariable]
  simp only [if_neg hvariable] at h ⊢
  have hnational : beginsNational d.lexis (w ++ ' ' :: v) = beginsNational d.lexis (w ++ a) := by
    refine beginsNational_spaced hw fun hn => ?_
    simp only [if_pos hn] at h
    simp only [beginsNational, Bool.and_eq_true, beq_iff_eq] at hn
    obtain ⟨y, -, hlen, rfl⟩ := nationalString_ok hn.2 h
    exact hlen.trans ((Nat.le_succ _).trans hx)
  rw [hnational]
  by_cases hn : beginsNational d.lexis (w ++ a) = true
  · simp only [if_pos hn]
  simp only [if_neg hn] at h ⊢
  by_cases hword : beginsWord d.lexis (charAt (w ++ a) 0) = true
  · simp only [if_pos hword]
  simp only [if_neg hword] at h ⊢
  have hmark : beginsHex (w ++ ' ' :: v) = beginsHex (w ++ a) := by
    refine beginsHex_spaced hw fun hhex => ?_
    simp only [if_pos hhex] at h
    obtain rfl := Piece.lexeme.inj (Except.ok.inj h)
    exact (hexNumber_length _).trans hx
  rw [hmark]
  by_cases hhex : beginsHex (w ++ a) = true
  · simp only [if_pos hhex]
  simp only [if_neg hhex] at h ⊢
  have hnumber : beginsNumber d.lexis before (w ++ ' ' :: v) =
      beginsNumber d.lexis before (w ++ a) := by
    refine beginsNumber_spaced hw fun hnumber => ?_
    simp only [if_pos hnumber] at h
    obtain rfl := Piece.lexeme.inj (Except.ok.inj h)
    exact hx
  rw [hnumber]

def Kind.Shows (d : Dialect) (rest : List Char) : Kind → Prop
  | .national => charAt rest 1 = '\''
  | .word => beginsWord d.lexis (charAt rest 0) = true
  | .string => charAt rest 0 = '\'' ∨ charAt rest 0 = '"'
  | _ => True

theorem kind_shows (rest : List Char) : (kind d before rest).Shows d rest := by
  unfold kind
  split
  · trivial
  split
  · next hn =>
    simp only [beginsNational, Bool.and_eq_true, beq_iff_eq] at hn
    exact hn.2
  split
  · next hword => exact hword
  split
  · trivial
  split
  · trivial
  split
  · trivial
  split
  · next hquote => simpa [Kind.Shows] using hquote
  · trivial

theorem ofKind_spaced {x : Lexeme} {k : Kind} (hw : w ≠ []) (hk : k.Shows d (w ++ a))
    (h : ofKind d (w ++ a) k = .ok (.lexeme x)) (hx : x.length ≤ w.length) :
    ∃ y, ofKind d (w ++ ' ' :: v) k = .ok (.lexeme y) ∧
      Retyped d x y (w ++ a) (w ++ ' ' :: v) := by
  cases k with
  | variableName =>
    obtain rfl := Piece.lexeme.inj (Except.ok.inj h)
    exact ⟨_, by rw [ofKind, variableName_spaced hx], .refl _ _ _⟩
  | national => exact ⟨_, nationalString_spaced hk h hx, .refl _ _ _⟩
  | word =>
    have hfront : charAt (w ++ a) 0 ≠ ' ' := by
      intro hfront
      have hword : beginsWord d.lexis (charAt (w ++ a) 0) = true := hk
      rw [hfront] at hword
      cases d <;> exact absurd hword (by decide)
    obtain ⟨y, hy, hretyped⟩ := word_spaced (v := v) hw hfront (here_ok h) hx
    exact ⟨y, by rw [ofKind, hy, here], hretyped⟩
  | hex =>
    obtain rfl := Piece.lexeme.inj (Except.ok.inj h)
    exact ⟨_, by rw [ofKind, hexNumber_spaced hx], .refl _ _ _⟩
  | number =>
    obtain rfl := Piece.lexeme.inj (Except.ok.inj h)
    exact ⟨_, by rw [ofKind, number_spaced hx], .refl _ _ _⟩
  | symbol => exact ⟨_, by rw [ofKind, symbol_spaced (here_ok h) hx, here], .refl _ _ _⟩
  | string =>
    have hfront : charAt (w ++ a) 0 ≠ ' ' := by
      rcases hk with hquote | hquote <;> rw [hquote] <;> decide
    exact ⟨_, by rw [ofKind, quotedString_spaced hfront (here_ok h) hx hw, here], .refl _ _ _⟩
  | other =>
    simp only [ofKind] at h
    split at h <;> cases h

theorem significant_spaced {x : Lexeme} (hw : w ≠ [])
    (h : significant d before (w ++ a) = .ok (.lexeme x)) (hx : x.length ≤ w.length) :
    ∃ y, significant d before (w ++ ' ' :: v) = .ok (.lexeme y) ∧
      Retyped d x y (w ++ a) (w ++ ' ' :: v) := by
  rw [significant_eq] at h
  rw [significant_eq, kind_spaced hw h hx]
  exact ofKind_spaced hw (kind_shows _) h hx

end Piece

/-! ## Ignored text -/

namespace Ignored

theorem takeWhile_inner {p : Char → Bool} (h : ((w ++ a).takeWhile p).length < w.length)
    (b : List Char) : (w ++ b).takeWhile p = (w ++ a).takeWhile p := by
  rw [List.takeWhile_append] at h
  rw [List.takeWhile_append, List.takeWhile_append]
  split at h
  · rw [List.length_append] at h
    omega
  · next hsome => rw [if_neg hsome, if_neg hsome]

theorem closing?_spaced (h : closing? (w ++ a) = some n) (hn : n ≤ w.length) :
    closing? (w ++ ' ' :: v) = some n := by
  induction w using closing?.induct generalizing n with
  | case1 | case2 c =>
    obtain ⟨body, r, -, -, rfl⟩ := closing?_body h
    simp at hn
  | case3 c c' rest hc =>
    simpa [closing?, hc] using h
  | case4 c c' rest hc ih =>
    simp only [List.cons_append, closing?, if_neg hc] at h ⊢
    obtain ⟨m, hm, rfl⟩ := Option.map_eq_some_iff.1 h
    rw [← List.cons_append, ih hm (by simpa using hn)]
    rfl

theorem block_spaced {opening : ℕ} {cause : LexicalCause} {k : ℕ}
    (h : block opening cause (w ++ a) = .ok k) (hk : k ≤ w.length) :
    block opening cause (w ++ ' ' :: v) = .ok k := by
  unfold block at h ⊢
  split at h
  · next n hn =>
    obtain rfl := Except.ok.inj h
    have hle : opening ≤ w.length := by omega
    rw [List.drop_append_of_le_length hle] at hn ⊢
    rw [closing?_spaced hn (by rw [List.length_drop]; omega)]
  · cases h

theorem line_spaced {opening k : ℕ} (h : line opening (w ++ a) = k) (hk : k < w.length) :
    line opening (w ++ ' ' :: v) = k := by
  simp only [line, List.length_append] at h ⊢
  have hopening : opening ≤ w.length := by omega
  rw [List.drop_append_of_le_length hopening] at h ⊢
  have hinner : ((w.drop opening ++ a).takeWhile fun c => c != '\n' && c != endMark).length <
      (w.drop opening).length := by
    rw [List.length_drop]
    omega
  rw [takeWhile_inner hinner]
  omega

theorem prefix_spaced {o : List Char} (ho : ' ' ∉ o) (h : o <+: w ++ ' ' :: v) : o <+: w := by
  induction w generalizing o with
  | nil =>
    cases o with
    | nil => exact List.nil_prefix
    | cons c o =>
      obtain ⟨rfl, -⟩ := List.cons_prefix_cons.1 h
      simp at ho
  | cons c w ih =>
    cases o with
    | nil => exact List.nil_prefix
    | cons x o =>
      obtain ⟨rfl, hp⟩ := List.cons_prefix_cons.1 h
      simp only [List.mem_cons, not_or] at ho
      exact List.cons_prefix_cons.2 ⟨rfl, ih ho.2 hp⟩

theorem hintOpening?_spaced {o : String} (h : hintOpening? d.lexis (w ++ ' ' :: v) = some o) :
    hintOpening? d.lexis (w ++ a) = some o := by
  unfold hintOpening? at h ⊢
  obtain ⟨hopening, hp⟩ := Option.filter_eq_some_iff.1 h
  have ho : ' ' ∉ o.toList := by
    cases d with
    | mysql | oracle =>
      obtain rfl := Option.some.inj hopening
      decide
    | postgresql | sqlserver | h2 => cases hopening
  have hw := prefix_spaced ho (List.isPrefixOf_iff_prefix.1 hp)
  refine Option.filter_eq_some_iff.2 ⟨hopening, List.isPrefixOf_iff_prefix.2 ?_⟩
  exact hw.trans (List.prefix_append w a)

theorem isComment_spaced (hw : w ≠ []) (h : isComment d.lexis (w ++ a) = false) :
    isComment d.lexis (w ++ ' ' :: v) = false := by
  have hpos := List.length_pos_iff.2 hw
  have hfirst : charAt (w ++ ' ' :: v) 0 = charAt (w ++ a) 0 := by
    rw [charAt_append hpos, charAt_append hpos]
  rcases charAt_spaced (w := w) (a := a) (v := v) (n := 1) hpos with heq | ⟨-, heq⟩
  · unfold isComment at h ⊢
    rwa [hfirst, heq]
  · simp only [isComment, hfirst, heq, Bool.or_eq_false_iff] at h ⊢
    simp [h.2]

theorem comment_pos {r : List Char} {k : ℕ} (hat : isComment d.lexis r = true)
    (h : comment r = .ok k) : 0 < k := by
  rcases comment_skipped hat h with (⟨-, rfl⟩ | ⟨o, t, ho, -, rfl⟩ | ⟨body, t, -, -, rfl⟩) |
    ⟨o, body, t, -, -, -, -, rfl⟩
  · omega
  · rcases ho with rfl | rfl | ⟨-, rfl⟩ <;> simp
  · omega
  · omega

theorem block_pos {opening k : ℕ} {cause : LexicalCause} {r : List Char}
    (h : block opening cause r = .ok k) : 0 < k := by
  unfold block at h
  split at h
  · next n hn =>
    obtain rfl := Except.ok.inj h
    obtain ⟨body, t, -, -, rfl⟩ := closing?_body hn
    omega
  · cases h

theorem hintOpening?_none (h : hintOpening? d.lexis (w ++ a) = none) :
    hintOpening? d.lexis (w ++ ' ' :: v) = none := by
  cases hs : hintOpening? d.lexis (w ++ ' ' :: v) with
  | none => rfl
  | some o =>
    rw [hintOpening?_spaced hs] at h
    cases h

theorem stretch_zero_spaced (hw : w ≠ []) (h : stretch d.lexis (w ++ a) = .ok 0) :
    stretch d.lexis (w ++ ' ' :: v) = .ok 0 := by
  unfold stretch at h ⊢
  cases ho : hintOpening? d.lexis (w ++ a) with
  | some o =>
    rw [ho] at h
    exact absurd (block_pos h) (Nat.lt_irrefl 0)
  | none =>
    rw [ho] at h
    rw [hintOpening?_none ho]
    simp only at h ⊢
    cases hc : isComment d.lexis (w ++ a) with
    | true =>
      rw [hc, if_pos rfl] at h
      exact absurd (comment_pos hc h) (Nat.lt_irrefl 0)
    | false =>
      rw [hc, if_neg (by simp)] at h
      rw [isComment_spaced hw hc, if_neg (by simp)]
      have hblanks : ((w ++ a).takeWhile Character.isBlank).length = 0 := Except.ok.inj h
      have hinner : ((w ++ a).takeWhile Character.isBlank).length < w.length := by
        rw [hblanks]
        exact List.length_pos_iff.2 hw
      unfold blanks
      rw [takeWhile_inner hinner, hblanks]

/-- A hint that ends in front of the space shows its opening in front of it. -/
theorem hintOpening?_some {o : String} {k : ℕ} (ho : hintOpening? d.lexis (w ++ a) = some o)
    (h : hint o.length (w ++ a) = .ok k) (hk : k < w.length) :
    hintOpening? d.lexis (w ++ ' ' :: v) = some o := by
  obtain ⟨hopening, hp⟩ := Option.filter_eq_some_iff.1 ho
  have hlen : o.length ≤ k := by
    simp only [hint, block] at h
    split at h
    · have hk := Except.ok.inj h
      omega
    · cases h
  have hle : o.toList.length ≤ w.length := by
    rw [String.length_toList]
    omega
  have hw : o.toList <+: w :=
    List.prefix_of_prefix_length_le (List.isPrefixOf_iff_prefix.1 hp) (List.prefix_append w a) hle
  exact Option.filter_eq_some_iff.2
    ⟨hopening, List.isPrefixOf_iff_prefix.2 (hw.trans (List.prefix_append w _))⟩

theorem comment_spaced {k : ℕ} (h : comment (w ++ a) = .ok k) (hpos : 0 < k)
    (hk : k < w.length) : comment (w ++ ' ' :: v) = .ok k := by
  have hfirst : charAt (w ++ ' ' :: v) 0 = charAt (w ++ a) 0 := by
    rw [charAt_append (by omega), charAt_append (by omega)]
  have hsecond : charAt (w ++ ' ' :: v) 1 = charAt (w ++ a) 1 := by
    rw [charAt_append (by omega), charAt_append (by omega)]
  unfold comment at h ⊢
  rw [hfirst, hsecond]
  simp only at h ⊢
  split at h
  · next hline => rw [if_pos hline, line_spaced (Except.ok.inj h) hk]
  next hline =>
  rw [if_neg hline]
  split at h
  · next hpound => rw [if_pos hpound, line_spaced (Except.ok.inj h) hk]
  next hpound =>
  rw [if_neg hpound]
  split at h
  · next hblock => rw [if_pos hblock, block_spaced h (by omega)]
  · next hblock =>
    rw [if_neg hblock]
    exact h

theorem stretch_spaced {k : ℕ} (h : stretch d.lexis (w ++ a) = .ok k) (hpos : 0 < k)
    (hk : k < w.length) : stretch d.lexis (w ++ ' ' :: v) = .ok k := by
  unfold stretch at h ⊢
  cases ho : hintOpening? d.lexis (w ++ a) with
  | some o =>
    rw [ho] at h
    rw [hintOpening?_some ho h hk]
    exact block_spaced h (by omega)
  | none =>
    rw [ho] at h
    rw [hintOpening?_none ho]
    simp only at h ⊢
    have hcomment : isComment d.lexis (w ++ ' ' :: v) = isComment d.lexis (w ++ a) := by
      unfold isComment
      rw [charAt_append (by omega), charAt_append (by omega), charAt_append (by omega),
        charAt_append (by omega)]
    rw [hcomment]
    split at h
    · next hc =>
      rw [if_pos hc]
      exact comment_spaced h hpos hk
    · next hc =>
      rw [if_neg hc]
      obtain rfl := Except.ok.inj h
      exact congrArg (fun r => Except.ok r.length) (takeWhile_inner hk _)

end Ignored

/-! ## Pieces -/

theorem Piece.next_lexeme_spaced {x : Lexeme} (hw : w ≠ [])
    (h : Piece.next d before (w ++ a) = .ok (.lexeme x)) (hx : x.length ≤ w.length) :
    ∃ y, Piece.next d before (w ++ ' ' :: v) = .ok (.lexeme y) ∧
      Lexeme.Retyped d x y (w ++ a) (w ++ ' ' :: v) := by
  unfold Piece.next at h
  split at h
  · cases h
  · next hstretch =>
    obtain ⟨y, hy, hretyped⟩ := significant_spaced (v := v) hw h hx
    refine ⟨y, ?_, hretyped⟩
    rw [Piece.next, Ignored.stretch_zero_spaced hw hstretch]
    exact hy
  · cases h

theorem Piece.next_ignored_spaced {k : ℕ} (h : Piece.next d before (w ++ a) = .ok (.ignored k))
    (hk : k < w.length) : Piece.next d before (w ++ ' ' :: v) = .ok (.ignored k) := by
  obtain ⟨hpos, hstretch⟩ := Piece.next_ignored h
  rw [Piece.next, Ignored.stretch_spaced hstretch hpos hk]
  obtain ⟨n, rfl⟩ := Nat.exists_eq_succ_of_ne_zero hpos.ne'
  rfl

end SqlFront

import Mathlib
import SqlFront.Number.Basic
import SqlFront.Proofs.Lexeme.Lookahead

/-!
# The numbers that numerals write

A numeral is a sign, perhaps, and digits; it writes the number that its digits have in their base,
the first one standing highest. A decimal numeral is read as the integer that it writes if that has
64 bits, and otherwise as a floating point number. A hexadecimal one has to have a digit and a
magnitude of 63 bits, so that its negation has 64 bits too.
-/

set_option autoImplicit false

namespace SqlFront.Number

variable {base k acc n : ℕ} {c x : Char} {cs digits : List Char} {ks : List ℕ} {negative : Bool}
  {text : String} {v : ℤ}

def IsDigitOf (base : ℕ) (c : Char) (k : ℕ) : Prop := k < base ∧ c.toLower = k.digitChar

instance (base : ℕ) (c : Char) (k : ℕ) : Decidable (IsDigitOf base c k) :=
  inferInstanceAs (Decidable (_ ∧ _))

def sign (negative : Bool) : List Char := if negative then ['-'] else []

def signed (negative : Bool) (n : ℕ) : ℤ := if negative then -n else n

def Numeral (base : ℕ) (negative : Bool) (ks : List ℕ) (cs : List Char) : Prop :=
  ∃ digits, cs = sign negative ++ digits ∧ List.Forall₂ (IsDigitOf base) digits ks

def DecimalNumeral (negative : Bool) (ks : List ℕ) (cs : List Char) : Prop :=
  ks ≠ [] ∧ Numeral 10 negative ks cs

def HexNumeral (negative : Bool) (ks : List ℕ) (cs : List Char) : Prop :=
  ∃ x tail, (x = 'x' ∨ x = 'X') ∧ cs = '0' :: x :: tail ∧ Numeral 16 negative ks tail

def valueOf (base : ℕ) (ks : List ℕ) : ℕ := Nat.ofDigits base ks.reverse

def FitsInt64 (v : ℤ) : Prop := -2 ^ 63 ≤ v ∧ v < 2 ^ 63

instance (v : ℤ) : Decidable (FitsInt64 v) := inferInstanceAs (Decidable (_ ∧ _))

/-! ## Digits -/

namespace IsDigitOf

theorem mono (h : IsDigitOf base c k) (hbase : base ≤ n) : IsDigitOf n c k :=
  ⟨h.1.trans_le hbase, h.2⟩

theorem eq_or_eq (h : IsDigitOf base c k) : c = k.digitChar ∨ c = k.digitChar.toUpper := by
  have hcase := Character.eq_toLower_or_eq_toUpper c
  rwa [h.2] at hcase

theorem digitValue_digitChar {n : ℕ} (h : n < 16) : digitValue n.digitChar = n := by
  have hall : ∀ n < 16, digitValue n.digitChar = n := by decide
  exact hall n h

theorem digitValue_eq (h : IsDigitOf 16 c k) : digitValue c = k := by
  have hall : ∀ k < 16, digitValue k.digitChar.toUpper = k := by decide
  rcases h.eq_or_eq with rfl | rfl
  · exact digitValue_digitChar h.1
  · exact hall k h.1

theorem ne_sign (h : IsDigitOf 16 c k) : c ≠ '-' ∧ c ≠ '+' := by
  have hall : ∀ k < 16, (k.digitChar ≠ '-' ∧ k.digitChar ≠ '+') ∧
      k.digitChar.toUpper ≠ '-' ∧ k.digitChar.toUpper ≠ '+' := by decide
  rcases h.eq_or_eq with rfl | rfl
  · exact (hall k h.1).1
  · exact (hall k h.1).2

theorem isDigit (h : IsDigitOf 10 c k) : Character.isDigit c = true := by
  have hall : ∀ k < 10, Character.isDigit k.digitChar = true ∧
      Character.isDigit k.digitChar.toUpper = true := by decide
  rcases h.eq_or_eq with rfl | rfl
  · exact (hall k h.1).1
  · exact (hall k h.1).2

end IsDigitOf

theorem forall_digits {p : Char → Prop} (hp : ∀ c k, IsDigitOf base c k → p c)
    (h : List.Forall₂ (IsDigitOf base) digits ks) : ∀ c ∈ digits, p c :=
  ((List.forall₂_and_left _ _).1 (h.imp fun c k hc => ⟨hp c k hc, hc⟩)).1

theorem digits_eq_nil_iff (h : List.Forall₂ (IsDigitOf base) digits ks) :
    digits = [] ↔ ks = [] := by
  rw [← List.length_eq_zero_iff, h.length_eq, List.length_eq_zero_iff]

/-! ## Natural numbers -/

theorem foldl_digits (hbase : base ≤ 16) (h : List.Forall₂ (IsDigitOf base) digits ks) :
    digits.foldl (fun n c => n * base + digitValue c) acc =
      Nat.ofDigits base (ks.reverse ++ [acc]) := by
  induction h generalizing acc with
  | nil => simp
  | @cons c k cs ks hc _ ih =>
    have hk : digitValue c = k := (hc.mono hbase).digitValue_eq
    have hpair : Nat.ofDigits base [acc * base + k] = Nat.ofDigits base ([k] ++ [acc]) := by
      simp [Nat.ofDigits_cons, Nat.mul_comm, Nat.add_comm]
    rw [List.foldl_cons, hk, ih, List.reverse_cons, List.append_assoc, Nat.ofDigits_append, hpair,
      ← Nat.ofDigits_append]

theorem digitsValue_eq (hbase : base ≤ 16) (h : List.Forall₂ (IsDigitOf base) digits ks) :
    digitsValue base digits = valueOf base ks := by
  rw [digitsValue, foldl_digits hbase h, Nat.ofDigits_append, valueOf]
  simp

theorem natural?_digits (hbase : base ≤ 16) (h : List.Forall₂ (IsDigitOf base) digits ks) :
    natural? base digits = if ks = [] then none else some (valueOf base ks) := by
  have hall : digits.all (fun c => digitValue c < base) = true := by
    rw [List.all_eq_true]
    refine forall_digits (fun c k hc => ?_) h
    rw [(hc.mono hbase).digitValue_eq]
    exact decide_eq_true hc.1
  by_cases hks : ks = []
  · rw [if_pos hks, natural?, if_neg (by simp [digits_eq_nil_iff h, hks])]
  · rw [if_neg hks, natural?, if_pos ⟨mt (digits_eq_nil_iff h).1 hks, hall⟩, digitsValue_eq hbase h]

/-! ## Integers of 64 bits -/

theorem splitSign_numeral (hbase : base ≤ 16) (h : List.Forall₂ (IsDigitOf base) digits ks) :
    splitSign (sign negative ++ digits) = (negative, digits) := by
  cases negative with
  | true => rfl
  | false =>
    have hsign := forall_digits (fun c k hc => (hc.mono hbase).ne_sign) h
    cases digits with
    | nil => rfl
    | cons c digits =>
      obtain ⟨hminus, hplus⟩ := hsign c List.mem_cons_self
      simp only [sign, Bool.false_eq_true, if_false, List.nil_append]
      unfold splitSign
      split
      · next heq => exact absurd (List.cons.inj heq).1 hminus
      · next heq => exact absurd (List.cons.inj heq).1 hplus
      · rfl

theorem ofInt?_eq (v : ℤ) : ofInt? v = if FitsInt64 v then some (Int64.ofInt v) else none := rfl

theorem FitsInt64.toInt_ofInt (h : FitsInt64 v) : (Int64.ofInt v).toInt = v :=
  Int64.toInt_ofInt_of_le h.1 h.2

theorem int64?_numeral (hbase : base ≤ 16) (h : Numeral base negative ks cs) :
    int64? base cs = if ks ≠ [] ∧ FitsInt64 (signed negative (valueOf base ks))
      then some (Int64.ofInt (signed negative (valueOf base ks))) else none := by
  obtain ⟨digits, rfl, hdigits⟩ := h
  have hnatural := natural?_digits hbase hdigits
  have hsigned : ∀ n : ℕ, (if negative = true then -(n : ℤ) else n) = signed negative n :=
    fun n => rfl
  simp only [int64?, splitSign_numeral hbase hdigits, hnatural]
  by_cases hks : ks = []
  · simp [hks]
  · simp [hks, hsigned, ofInt?_eq]

/-! ## Decimal numerals -/

theorem unsignedDecimal?_digits (hne : ks ≠ []) (h : List.Forall₂ (IsDigitOf 10) digits ks) :
    unsignedDecimal? negative digits = some (.ofDecimal negative (valueOf 10 ks) 0) := by
  have hwhole : digits.takeWhile Character.isDigit = digits :=
    List.takeWhile_eq_self_iff.2 (forall_digits (fun c k hc => hc.isDigit) h)
  have hvalue := digitsValue_eq (by decide) h
  simp [unsignedDecimal?, hwhole, charAt, hvalue, exponent?, mt (digits_eq_nil_iff h).1 hne, endMark]

theorem digits_ne_word {word : String} (hne : ks ≠ [])
    (h : List.Forall₂ (IsDigitOf 10) digits ks) (hword : word.toList.head? = some x)
    (hx : Character.isDigit x = false) : String.ofList (digits.map Char.toLower) ≠ word := by
  have hall : ∀ k < 10, Character.isDigit k.digitChar = true := by decide
  rintro rfl
  cases h with
  | nil => exact hne rfl
  | @cons c k digits ks hc _ =>
    rw [String.toList_ofList, List.map_cons, List.head?_cons, Option.some.injEq, hc.2] at hword
    rw [← hword, hall k hc.1] at hx
    cases hx

theorem binary64?_numeral (hne : ks ≠ []) (h : Numeral 10 negative ks cs) :
    binary64? cs = some (.ofDecimal negative (valueOf 10 ks) 0) := by
  obtain ⟨digits, rfl, hdigits⟩ := h
  have hword : ∀ word x, word.toList.head? = some x → Character.isDigit x = false →
      String.ofList (digits.map Char.toLower) ≠ word := fun word x =>
    digits_ne_word hne hdigits
  simp only [binary64?, splitSign_numeral (by decide) hdigits,
    hword "inf" 'i' (by decide) (by decide), hword "infinity" 'i' (by decide) (by decide),
    hword "nan" 'n' (by decide) (by decide), or_self, if_false]
  exact unsignedDecimal?_digits hne hdigits

/-- A decimal numeral is the integer that it writes, or a floating point number if that integer has
more than 64 bits. -/
theorem ofInteger?_numeral (h : DecimalNumeral negative ks text.toList) :
    ofInteger? text = some (if FitsInt64 (signed negative (valueOf 10 ks))
      then .integer (Int64.ofInt (signed negative (valueOf 10 ks)))
      else .decimal (.ofDecimal negative (valueOf 10 ks) 0)) := by
  obtain ⟨hne, h⟩ := h
  rw [ofInteger?, int64?_numeral (by decide) h, binary64?_numeral hne h]
  by_cases hfits : FitsInt64 (signed negative (valueOf 10 ks))
  · rw [if_pos ⟨hne, hfits⟩, if_pos hfits]
  · rw [if_neg fun hboth => hfits hboth.2, if_neg hfits, Option.map_some]

/-! ## Hexadecimal numerals -/

theorem fitsInt64_natCast : FitsInt64 n ↔ n < 2 ^ 63 := by
  unfold FitsInt64
  omega

/-- A magnitude of 63 bits has 64 bits with either sign. -/
theorem fitsInt64_signed (h : n < 2 ^ 63) : FitsInt64 (signed negative n) := by
  cases negative <;> simp only [FitsInt64, signed, Bool.false_eq_true, if_false, if_true] <;> omega

/-- A hexadecimal numeral is the integer that it writes, if it has a digit and its magnitude has 63
bits. -/
theorem ofHex?_numeral (h : HexNumeral negative ks text.toList) :
    ofHex? text = if ks ≠ [] ∧ valueOf 16 ks < 2 ^ 63
      then some (.integer (Int64.ofInt (signed negative (valueOf 16 ks)))) else none := by
  obtain ⟨x, _, hx, htext, digits, rfl, hdigits⟩ := h
  have hmagnitude : int64? 16 (sign false ++ digits) = _ :=
    int64?_numeral (by decide) ⟨digits, rfl, hdigits⟩
  simp only [sign, signed, Bool.false_eq_true, if_false, List.nil_append, fitsInt64_natCast]
    at hmagnitude
  have hbehind : (x = 'x' ∨ x = 'X') = True := eq_true hx
  unfold ofHex?
  simp only [htext, hbehind, if_true]
  cases negative with
  | true =>
    simp only [sign, if_true, List.cons_append, List.nil_append, hmagnitude, signed]
    split
    · rw [Option.map_some, ← Int64.ofInt_neg]
    · rfl
  | false =>
    have hsign := forall_digits (fun c k hc => hc.ne_sign) hdigits
    simp only [sign, signed, Bool.false_eq_true, if_false, List.nil_append]
    split
    · next tail => exact ((hsign '-' List.mem_cons_self).1 rfl).elim
    · rw [hmagnitude]
      split <;> rfl

end SqlFront.Number

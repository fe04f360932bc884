import SqlFront.Clause.Expression
import SqlFront.Proofs.Lexeme.BareWord
import SqlFront.Proofs.Number.Numeral

/-!
# Integer literals

An integer token is a decimal numeral and a hexadecimal token is a hexadecimal one. As operands they
are the integers that they write, as far as these have 64 bits.
-/

set_option autoImplicit false

namespace SqlFront

open Number

variable {d : Dialect} {before : Option Char} {rest text cs : List Char} {x : Lexeme} {t : Token}
  {k : Literal} {c : Char} {p : Char → Bool} {base : ℕ}

/-! ## What a numeral can be read from -/

theorem Lexeme.symbol_type (h : symbol rest = .ok x) : x.type ≠ .literal k := by
  simp only [symbol] at h
  split at h
  · rw [← Except.ok.inj h]
    simp
  · cases h

theorem Piece.significant_numeral (h : significant d before rest = .ok (.lexeme x))
    (hx : x.type = .literal k) (hk : k = .int ∨ k = .hex) :
    (charAt rest 0 = '0' ∧ (charAt rest 1 = 'x' ∨ charAt rest 1 = 'X') ∧
      x = Lexeme.hexNumber rest) ∨
    beginsNumber d.lexis before rest = true ∧ x = Lexeme.number rest := by
  have hchars : x.type ≠ .literal .chars := by
    rw [hx]
    rcases hk with rfl | rfl <;> decide
  cases significant_reads h with
  | variableName _ => rcases hk with rfl | rfl <;> cases hx
  | national _ _ hy => exact (hchars (Lexeme.quotedString_type hy :)).elim
  | word _ hword =>
    rcases Lexeme.word_cases hword with htype | ⟨_, htype⟩
    · obtain rfl := TokenType.literal.inj (htype.symm.trans hx)
      rcases hk with hk | hk <;> cases hk
    · cases htype.symm.trans hx
  | hex hzero hmark => exact .inl ⟨hzero, hmark, rfl⟩
  | number hbegins => exact .inr ⟨hbegins, rfl⟩
  | symbol hsymbol => exact (Lexeme.symbol_type hsymbol hx).elim
  | string _ hy => exact (hchars (Lexeme.quotedString_type hy)).elim

/-! ## Digits -/

theorem Character.lt_of_isHexDigit (h : isHexDigit c = true) : c.toNat < 128 := by
  have hrange : (48 ≤ c.val.toNat ∧ c.val.toNat ≤ 57) ∨ (97 ≤ c.val.toNat ∧ c.val.toNat ≤ 102) ∨
      (65 ≤ c.val.toNat ∧ c.val.toNat ≤ 70) := by
    simpa [isHexDigit, isDigit, UInt32.le_iff_toNat_le, or_assoc] using h
  have hval : c.toNat = c.val.toNat := rfl
  omega

theorem Character.forall_ascii {P : Char → Prop} (h : ∀ n < 128, P (Char.ofNat n))
    (hc : c.toNat < 128) : P c := by
  have hp := h c.toNat hc
  rwa [Char.ofNat_toNat] at hp

theorem exists_hexDigitOf (h : Character.isHexDigit c = true) : ∃ k, IsDigitOf 16 c k := by
  have hall : ∀ n < 128, Character.isHexDigit (Char.ofNat n) = true →
      ∃ k < 16, (Char.ofNat n).toLower = k.digitChar := by decide +kernel
  exact Character.forall_ascii (P := fun c => Character.isHexDigit c = true →
    ∃ k < 16, c.toLower = k.digitChar) hall (Character.lt_of_isHexDigit h) h

theorem exists_digitOf (h : Character.isDigit c = true) : ∃ k, IsDigitOf 10 c k := by
  have hall : ∀ n < 128, Character.isDigit (Char.ofNat n) = true →
      ∃ k < 10, (Char.ofNat n).toLower = k.digitChar := by decide +kernel
  have hlt := Character.lt_of_isHexDigit (c := c) (by simp [Character.isHexDigit, h])
  exact Character.forall_ascii (P := fun c => Character.isDigit c = true →
    ∃ k < 10, c.toLower = k.digitChar) hall hlt h

theorem exists_digits (hp : ∀ c, p c = true → ∃ k, IsDigitOf base c k)
    (h : ∀ c ∈ cs, p c = true) : ∃ ks, List.Forall₂ (IsDigitOf base) cs ks := by
  induction cs with
  | nil => exact ⟨[], .nil⟩
  | cons c cs ih =>
    obtain ⟨k, hk⟩ := hp c (h c List.mem_cons_self)
    obtain ⟨ks, hks⟩ := ih fun c hc => h c (List.mem_cons_of_mem _ hc)
    exact ⟨k :: ks, .cons hk hks⟩

theorem exists_numeral (hp : ∀ c, p c = true → ∃ k, IsDigitOf base c k) (r : List Char) :
    ∃ negative ks, Numeral base negative ks (r.take (Lexeme.signedLength '-' p r)) ∧
      Lexeme.signedLength '-' p r = (sign negative).length + ks.length ∧
      (negative = true → charAt r 0 = '-') := by
  have hrun : ∀ r : List Char, r.take (r.takeWhile p).length = r.takeWhile p := fun r =>
    (List.prefix_iff_eq_take.1 (List.takeWhile_prefix p)).symm
  have hdigits : ∀ r : List Char, ∃ ks, List.Forall₂ (IsDigitOf base) (r.takeWhile p) ks :=
    fun r => exists_digits hp fun c hc => List.mem_takeWhile_imp hc
  by_cases hsign : charAt r 0 = '-'
  · obtain ⟨r, rfl⟩ : ∃ tail, r = '-' :: tail := by
      cases r with
      | nil => exact absurd hsign (by decide)
      | cons c r => exact ⟨r, congrArg (· :: r) hsign⟩
    obtain ⟨ks, hks⟩ := hdigits r
    have hlength : Lexeme.signedLength '-' p ('-' :: r) = (r.takeWhile p).length + 1 := by
      simp only [Lexeme.signedLength, if_pos hsign]
      exact Nat.add_comm 1 _
    rw [hlength, List.take_succ_cons, hrun]
    exact ⟨true, ks, ⟨_, rfl, hks⟩, by rw [hks.length_eq]; exact Nat.add_comm _ 1, fun _ => hsign⟩
  · obtain ⟨ks, hks⟩ := hdigits r
    have hlength : Lexeme.signedLength '-' p r = (r.takeWhile p).length := by
      simp only [Lexeme.signedLength, if_neg hsign, List.drop_zero, Nat.zero_add]
    rw [hlength, hrun]
    refine ⟨false, ks, ⟨_, rfl, hks⟩, ?_, fun hfalse => by cases hfalse⟩
    rw [hks.length_eq]
    exact (Nat.zero_add _).symm

/-! ## The literals of integer tokens -/

theorem Lexeme.number_decimalNumeral (h : Piece.beginsNumber d.lexis before rest = true)
    (hint : (number rest).type = .literal .int) :
    ∃ negative ks, DecimalNumeral negative ks (number rest).literals.toList := by
  have hwhole : numberLength rest = wholeLength rest := by
    rw [number_eq, ofFront] at hint
    by_contra hne
    rw [if_neg hne] at hint
    cases hint
  obtain ⟨negative, ks, hnumeral, hlength, hsign⟩ := exists_numeral (fun _ => exists_digitOf) rest
  have hliterals : (number rest).literals.toList = rest.take (wholeLength rest) := by
    rw [number_eq, ofFront, String.toList_ofList, hwhole]
  refine ⟨negative, ks, ?_, hliterals ▸ hnumeral⟩
  rintro rfl
  replace hlength : wholeLength rest = (sign negative).length := hlength
  cases hdigit : Character.isDigit (charAt rest 0) with
  | true =>
    have hminus : charAt rest 0 ≠ '-' := by
      intro hminus
      rw [hminus] at hdigit
      cases hdigit
    have hpos := Piece.digits_pos hdigit
    have hwhole' : wholeLength rest = digits rest := by
      simp only [wholeLength, signedLength, if_neg hminus, List.drop_zero, Nat.zero_add]
      rfl
    have hpositive : negative = false := Bool.eq_false_iff.2 (mt hsign hminus)
    rw [hwhole', hpositive] at hlength
    exact Nat.ne_of_gt hpos hlength
  | false =>
    have htwo := (Piece.beginsNumber_length h hdigit).1
    have hone : (sign negative).length ≤ 1 := by cases negative <;> decide
    omega

theorem Lexeme.hexNumber_hexNumeral (hzero : charAt rest 0 = '0')
    (hx : charAt rest 1 = 'x' ∨ charAt rest 1 = 'X') :
    ∃ negative ks, HexNumeral negative ks (hexNumber rest).literals.toList := by
  obtain ⟨x, r, rfl⟩ : ∃ x r, rest = '0' :: x :: r := by
    have hlength : 1 < rest.length :=
      lt_length_of_charAt (by rcases hx with hx | hx <;> rw [hx] <;> decide)
    match rest, hlength with
    | c :: x :: r, _ => exact ⟨x, r, congrArg (· :: x :: r) hzero⟩
  obtain ⟨negative, ks, hnumeral, -, -⟩ := exists_numeral (fun _ => exists_hexDigitOf) r
  refine ⟨negative, ks, x, _, hx, ?_, hnumeral⟩
  rw [hexNumber_eq, ofFront, String.toList_ofList, Nat.add_comm]
  rfl

namespace TokenStream

theorem exists_decimalNumeral (h : t ∈ (ofText d text).tokens) (ht : t.type = .literal .int) :
    ∃ negative ks, DecimalNumeral negative ks t.literals.toList := by
  obtain ⟨k, before, x, hx, rfl⟩ := mem_scan h
  rcases Piece.significant_numeral hx ht (.inl rfl) with ⟨-, -, rfl⟩ | ⟨hbegins, rfl⟩
  · cases ht
  · exact Lexeme.number_decimalNumeral hbegins ht

theorem exists_hexNumeral (h : t ∈ (ofText d text).tokens) (ht : t.type = .literal .hex) :
    ∃ negative ks, HexNumeral negative ks t.literals.toList := by
  obtain ⟨k, before, x, hx, rfl⟩ := mem_scan h
  rcases Piece.significant_numeral hx ht (.inr rfl) with ⟨hzero, hmark, rfl⟩ | ⟨-, rfl⟩
  · exact Lexeme.hexNumber_hexNumeral hzero hmark
  · have htype : (Lexeme.number (text.drop k)).type = .literal .hex := ht
    rw [Lexeme.number_eq, Lexeme.ofFront] at htype
    split at htype <;> cases htype

end TokenStream

/-! ## Operands -/

/-- A token that is no placeholder is read by itself, and nothing else changes. -/
theorem Clause.primary_literal {w : Workspace Findings} (hw : w.cursor.current = t)
    (ht : t.type ≠ .symbol .question) : primary w = .ok (literal t) w := by
  subst hw
  have hat : w.cursor.isAt (.symbol .question) = false := beq_eq_false_iff_ne.2 ht
  show (if w.cursor.isAt (.symbol .question) = true then _ else _ : Parser Findings Expression) w = _
  rw [hat]
  rfl

/-- Every integer token is a decimal numeral, and as an operand it is the integer that it writes if
that has 64 bits, and otherwise a floating point number. Every hexadecimal token is a hexadecimal
numeral, and it is the integer that it writes if it has a digit and a magnitude of 63 bits;
otherwise it is kept as text. -/
theorem integer_literal_value (h : t ∈ (TokenStream.ofText d text).tokens) :
    (t.type = .literal .int →
      (∃ negative ks, DecimalNumeral negative ks t.literals.toList) ∧
      ∀ negative ks, DecimalNumeral negative ks t.literals.toList →
      ∀ w : Workspace Findings, w.cursor.current = t →
        (FitsInt64 (signed negative (valueOf 10 ks)) →
          ∃ i : Int64, i.toInt = signed negative (valueOf 10 ks) ∧
            Clause.primary w = .ok (.number (.integer i)) w) ∧
        (¬FitsInt64 (signed negative (valueOf 10 ks)) →
          Clause.primary w =
            .ok (.number (.decimal (.ofDecimal negative (valueOf 10 ks) 0))) w)) ∧
    (t.type = .literal .hex →
      (∃ negative ks, HexNumeral negative ks t.literals.toList) ∧
      ∀ negative ks, HexNumeral negative ks t.literals.toList →
      ∀ w : Workspace Findings, w.cursor.current = t →
        (ks ≠ [] ∧ valueOf 16 ks < 2 ^ 63 →
          ∃ i : Int64, i.toInt = signed negative (valueOf 16 ks) ∧
            Clause.primary w = .ok (.number (.integer i)) w) ∧
        (¬(ks ≠ [] ∧ valueOf 16 ks < 2 ^ 63) → Clause.primary w = .ok (.raw t.literals) w)) := by
  constructor
  · intro ht
    refine ⟨TokenStream.exists_decimalNumeral h ht, fun negative ks hnumeral w hw => ?_⟩
    have hvalue := ofInteger?_numeral hnumeral
    have hprimary := Clause.primary_literal hw (by rw [ht]; decide)
    simp only [Clause.literal, ht, hvalue] at hprimary
    constructor
    · intro hfits
      rw [if_pos hfits] at hprimary
      exact ⟨_, hfits.toInt_ofInt, hprimary⟩
    · intro hnot
      rwa [if_neg hnot] at hprimary
  · intro ht
    refine ⟨TokenStream.exists_hexNumeral h ht, fun negative ks hnumeral w hw => ?_⟩
    have hvalue := ofHex?_numeral hnumeral
    have hprimary := Clause.primary_literal hw (by rw [ht]; decide)
    simp only [Clause.literal, ht, hvalue] at hprimary
    constructor
    · intro hsmall
      rw [if_pos hsmall] at hprimary
      exact ⟨_, (fitsInt64_signed hsmall.2).toInt_ofInt, hprimary⟩
    · intro hnot
      rwa [if_neg hnot] at hprimary

/-- The least integer of 64 bits is one, its magnitude is not, and `0X` alone is kept as text. -/
theorem integer_literal_value_least : ∃ (w w' w'' : Workspace Findings) (i : Int64),
    w.cursor.current = ⟨.literal .int, "-9223372036854775808", 0, 20⟩ ∧
      Clause.primary w = .ok (.number (.integer i)) w ∧ i.toInt = -2 ^ 63 ∧
    w'.cursor.current = ⟨.literal .int, "9223372036854775808", 0, 19⟩ ∧
      Clause.primary w' = .ok (.number (.decimal (.ofDecimal false (2 ^ 63) 0))) w' ∧
    w''.cursor.current = ⟨.literal .hex, "0X", 0, 2⟩ ∧
      Clause.primary w'' = .ok (.raw "0X") w'' := by
  have hdigits : List.Forall₂ (IsDigitOf 10) "9223372036854775808".toList
      [9, 2, 2, 3, 3, 7, 2, 0, 3, 6, 8, 5, 4, 7, 7, 5, 8, 0, 8] := by decide +kernel
  have hleast : ⟨.literal .int, "-9223372036854775808", 0, 20⟩ ∈
      (TokenStream.ofText .mysql "-9223372036854775808".toList).tokens := by decide +kernel
  have hmagnitude : ⟨.literal .int, "9223372036854775808", 0, 19⟩ ∈
      (TokenStream.ofText .mysql "9223372036854775808".toList).tokens := by decide +kernel
  have hempty : ⟨.literal .hex, "0X", 0, 2⟩ ∈
      (TokenStream.ofText .oracle "0X".toList).tokens := by decide +kernel
  have hinteger := ((integer_literal_value hleast).1 rfl).2 true _ ⟨by decide, _, rfl, hdigits⟩
    ⟨{ Cursor.ofText .mysql "-9223372036854775808" with
      current := ⟨.literal .int, "-9223372036854775808", 0, 20⟩ }, { kind := .dql }⟩ rfl
  have hdecimal := ((integer_literal_value hmagnitude).1 rfl).2 false _
    ⟨by decide, _, rfl, hdigits⟩
    ⟨{ Cursor.ofText .mysql "9223372036854775808" with
      current := ⟨.literal .int, "9223372036854775808", 0, 19⟩ }, { kind := .dql }⟩ rfl
  have hraw := ((integer_literal_value hempty).2 rfl).2 false []
    ⟨'X', [], .inr rfl, rfl, [], rfl, .nil⟩
    ⟨{ Cursor.ofText .oracle "0X" with current := ⟨.literal .hex, "0X", 0, 2⟩ },
      { kind := .dql }⟩ rfl
  obtain ⟨i, hi, hprimary⟩ := hinteger.1 (by decide +kernel)
  exact ⟨_, _, _, i, rfl, hprimary, hi, rfl, hdecimal.2 (by decide +kernel), rfl,
    hraw.2 (by simp)⟩

end SqlFront

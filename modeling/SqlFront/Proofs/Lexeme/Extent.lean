import Mathlib
import SqlFront.Token.Stream

/-!
# What a lexeme takes

A lexeme takes at least one of the characters in front, and no more than there are. Its literals
are what it takes, for a string without its quotes and the letter before them.
-/

set_option autoImplicit false

namespace SqlFront

variable {d : Dialect} {rest : List Char} {x : Lexeme}

inductive Encloses (l : String) : List Char → ℕ → Prop
  | plain {q : Char} {r : List Char} : q = '\'' ∨ q = '"' →
      Quoted.closing? q (l.toList ++ q :: r) = some (l.toList.length + 1) →
      Encloses l (q :: (l.toList ++ q :: r)) (l.toList.length + 2)
  | national {n : Char} {r : List Char} : n = 'N' ∨ n = 'n' →
      Quoted.closing? '\'' (l.toList ++ '\'' :: r) = some (l.toList.length + 1) →
      Encloses l (n :: '\'' :: (l.toList ++ '\'' :: r)) (l.toList.length + 3)

structure Lexeme.Covers (x : Lexeme) (rest : List Char) : Prop where
  pos : 0 < x.length
  le : x.length ≤ rest.length
  type : x.type ≠ .endOfText
  spelled : x.type ≠ .literal .chars → x.literals = String.ofList (rest.take x.length)
  string : x.type = .literal .chars → Encloses x.literals rest x.length

theorem ne_nil_of_charAt {rest : List Char} {n : ℕ} (h : charAt rest n ≠ endMark) : rest ≠ [] := by
  rintro rfl
  exact h rfl

/-- What is no end mark is a character of the text. -/
theorem lt_length_of_charAt {n : ℕ} (h : charAt rest n ≠ endMark) : n < rest.length := by
  by_contra hn
  apply h
  unfold charAt
  rw [List.getD_eq_default]
  omega

namespace Quoted

/-- A quoted text is its content with the closing character behind it. -/
theorem closing?_content {q : Char} {rest : List Char} {n : ℕ} (h : closing? q rest = some n) :
    ∃ content r, rest = content ++ q :: r ∧ n = content.length + 1 := by
  induction rest using closing?.induct q generalizing n with
  | case1 => cases h
  | case2 c hc =>
    obtain rfl : 1 = n := by simpa [closing?, hc] using h
    exact ⟨[], [], by simp [hc.1], rfl⟩
  | case3 c hc => simp [closing?, hc] at h
  | case4 rest ih =>
    simp only [closing?, if_true] at h
    obtain ⟨m, hm, rfl⟩ := Option.map_eq_some_iff.1 h
    obtain ⟨content, r, rfl, rfl⟩ := ih hm
    exact ⟨q :: q :: content, r, rfl, rfl⟩
  | case5 c' rest hc' =>
    obtain rfl : 1 = n := by simpa [closing?, hc'] using h
    exact ⟨[], c' :: rest, rfl, rfl⟩
  | case6 c c' rest hc ih =>
    simp only [closing?, if_neg hc] at h
    obtain ⟨m, hm, rfl⟩ := Option.map_eq_some_iff.1 h
    obtain ⟨content, r, he, rfl⟩ := ih hm
    exact ⟨c :: content, r, by rw [he]; rfl, rfl⟩

end Quoted

namespace Lexeme

theorem quotedString_ok {rest : List Char} {x : Lexeme} (h : quotedString rest = .ok x)
    (hrest : rest ≠ []) : ∃ q content r, rest = q :: (content ++ q :: r) ∧
      Quoted.closing? q (content ++ q :: r) = some (content.length + 1) ∧
      x = ⟨.literal .chars, String.ofList content, content.length + 2⟩ := by
  obtain ⟨q, tail, rfl⟩ := List.exists_cons_of_ne_nil hrest
  have hq : charAt (q :: tail) 0 = q := rfl
  simp only [quotedString, Quoted.length?, List.tail_cons, hq] at h
  cases hn : Quoted.closing? q tail with
  | none => simp [hn] at h
  | some n =>
    obtain ⟨content, r, rfl, rfl⟩ := Quoted.closing?_content hn
    simp only [hn, Option.map_some, Except.ok.injEq] at h
    refine ⟨q, content, r, rfl, hn, h ▸ ?_⟩
    simp [slice]

theorem ofFront_covers {kind : Literal} {n : ℕ} (hk : kind ≠ .chars) (hpos : 0 < n)
    (hle : n ≤ rest.length) : (ofFront kind n rest).Covers rest := by
  have hne : (ofFront kind n rest).type ≠ .literal .chars := by simpa [ofFront] using hk
  exact ⟨hpos, hle, by simp [ofFront], fun _ => rfl, fun h => (hne h).elim⟩

theorem add_takeWhile_le {n : ℕ} (p : Char → Bool) (hn : n ≤ rest.length) :
    n + ((rest.drop n).takeWhile p).length ≤ rest.length := by
  have h := (List.takeWhile_prefix p (l := rest.drop n)).length_le
  rw [List.length_drop] at h
  omega

theorem variableName_covers (h : charAt rest 0 = '@') : (variableName rest).Covers rest := by
  have hfirst : 0 < rest.length := lt_length_of_charAt (by rw [h]; decide)
  unfold variableName
  by_cases hsecond : charAt rest 1 = '@'
  · have hlen : 1 < rest.length := lt_length_of_charAt (by rw [hsecond]; decide)
    rw [if_pos hsecond]
    exact ofFront_covers (by decide) (by omega) (add_takeWhile_le _ hlen)
  · rw [if_neg hsecond]
    exact ofFront_covers (by decide) (by omega) (add_takeWhile_le _ hfirst)

theorem hexNumber_covers (h : 1 < rest.length) : (hexNumber rest).Covers rest := by
  unfold hexNumber
  by_cases hminus : charAt rest 2 = '-'
  · have hlen : 2 < rest.length := lt_length_of_charAt (by rw [hminus]; decide)
    rw [if_pos hminus]
    exact ofFront_covers (by decide) (by omega) (add_takeWhile_le _ hlen)
  · rw [if_neg hminus]
    exact ofFront_covers (by decide) (by omega) (add_takeWhile_le _ h)

/-! ## Words -/

theorem wordType_cases (d : Dialect) (word : String) (behind : List Char) :
    wordType d word behind = .literal .identifier ∨ ∃ k, wordType d word behind = .keyword k := by
  unfold wordType
  split
  · exact .inl rfl
  · split
    · next k _ => exact .inr ⟨k, rfl⟩
    · exact .inl rfl

theorem wordType_ne {d : Dialect} {word : String} {behind : List Char} {t : TokenType}
    (ht : t ≠ .literal .identifier) (hk : ∀ k, t ≠ .keyword k) : wordType d word behind ≠ t := by
  rcases wordType_cases d word behind with h | ⟨k, h⟩ <;> rw [h]
  · exact ht.symm
  · exact (hk k).symm

theorem isWord_of_beginsWord {d : Dialect} {c : Char} (h : Piece.beginsWord d.lexis c = true)
    (hq : ¬(c = '\x60' ∨ c = '"' ∨ c = '[')) : Character.isWord c = true := by
  simp only [not_or] at hq
  have hquotes : d.lexis.identifierQuotes.contains c = false := by
    cases d <;> simp [Dialect.lexis, hq]
  simp only [Piece.beginsWord, hquotes, Bool.or_false, Bool.or_eq_true, beq_iff_eq, hq.1,
    or_false] at h
  rcases h with (h | h) | h <;> simp [Character.isWord, h]

theorem bareWord_type (d : Dialect) (rest : List Char) : (bareWord d rest).type =
    wordType d (bareWord d rest).literals (rest.drop (bareWord d rest).length) := by
  simp only [bareWord]

theorem bareWord_covers {c : Char} (hc : Character.isWord c = true) :
    (bareWord d (c :: rest)).Covers (c :: rest) := by
  have hprefix := List.takeWhile_prefix Character.isWord (l := c :: rest)
  constructor
  · simp [bareWord, hc]
  · exact hprefix.length_le
  · rw [bareWord_type]
    exact wordType_ne (by simp) (by simp)
  · intro _
    exact congrArg String.ofList (List.prefix_iff_eq_take.1 hprefix)
  · rw [bareWord_type]
    exact fun h => (wordType_ne (by simp) (by simp) h).elim

theorem quotedWord_covers (h : quotedWord rest = .ok x) (hrest : rest ≠ []) : x.Covers rest := by
  obtain ⟨c, tail, rfl⟩ := List.exists_cons_of_ne_nil hrest
  simp only [quotedWord, Quoted.length?, List.tail_cons] at h
  cases hn : Quoted.closing? (Quoted.terminator (charAt (c :: tail) 0)) tail with
  | none => simp [hn] at h
  | some n =>
    obtain ⟨content, r, htail, hlen⟩ := Quoted.closing?_content hn
    simp only [hn, Option.map_some, Except.ok.injEq] at h
    subst h
    apply ofFront_covers (by decide) (Nat.succ_pos n)
    rw [htail, hlen]
    simp

theorem word_covers (h : word d rest = .ok x)
    (hw : Piece.beginsWord d.lexis (charAt rest 0) = true) : x.Covers rest := by
  obtain ⟨c, tail, rfl⟩ : ∃ c tail, rest = c :: tail := by
    refine List.exists_cons_of_ne_nil ?_
    rintro rfl
    cases d <;> revert hw <;> decide
  simp only [word] at h
  split at h
  · exact quotedWord_covers h (List.cons_ne_nil _ _)
  · next hq =>
    obtain rfl := Except.ok.inj h
    exact bareWord_covers (isWord_of_beginsWord hw hq)

/-! ## Numbers -/

theorem add_digits_le {n : ℕ} (hn : n ≤ rest.length) : n + digits (rest.drop n) ≤ rest.length :=
  add_takeWhile_le _ hn

theorem fractionLength_le (rest : List Char) : fractionLength rest ≤ rest.length := by
  unfold fractionLength
  split
  · next h =>
    have hlen : 0 < rest.length := lt_length_of_charAt (by rw [h]; decide)
    exact add_digits_le hlen
  · exact Nat.zero_le _

theorem exponentLength_le (rest : List Char) : exponentLength rest ≤ rest.length := by
  unfold exponentLength
  by_cases h : charAt rest 0 = 'e' ∨ charAt rest 0 = 'E'
  · have hfirst : 0 < rest.length :=
      lt_length_of_charAt (by rcases h with h | h <;> rw [h] <;> decide)
    rw [if_pos h]
    by_cases hsign : charAt rest 1 = '+' ∨ charAt rest 1 = '-'
    · have hlen : 1 < rest.length :=
        lt_length_of_charAt (by rcases hsign with h | h <;> rw [h] <;> decide)
      rw [if_pos hsign]
      exact add_digits_le hlen
    · rw [if_neg hsign]
      exact add_digits_le hfirst
  · rw [if_neg h]
    exact Nat.zero_le _

theorem suffixLength_le (rest : List Char) : suffixLength rest ≤ rest.length := by
  unfold suffixLength
  by_cases h : charAt rest 0 = 'f' ∨ charAt rest 0 = 'F' ∨ charAt rest 0 = 'd' ∨
      charAt rest 0 = 'D'
  · have hfirst : 0 < rest.length :=
      lt_length_of_charAt (by rcases h with h | h | h | h <;> rw [h] <;> decide)
    rw [if_pos h]
    exact hfirst
  · rw [if_neg h]
    exact Nat.zero_le _

theorem add_le_of_drop {f : List Char → ℕ} (hf : ∀ l, f l ≤ l.length) {n : ℕ}
    (hn : n ≤ rest.length) : n + f (rest.drop n) ≤ rest.length := by
  have h := hf (rest.drop n)
  rw [List.length_drop] at h
  omega

theorem number_covers {lexis : Lexis} {before : Option Char}
    (h : Piece.beginsNumber lexis before rest = true) : (number rest).Covers rest := by
  obtain ⟨c, tail, rfl⟩ : ∃ c tail, rest = c :: tail := by
    refine List.exists_cons_of_ne_nil ?_
    rintro rfl
    simp [Piece.beginsNumber, charAt, endMark, Character.isDigit] at h
  have hc : charAt (c :: tail) 0 = c := rfl
  have hsign : (if c = '-' then 1 else 0) ≤ (c :: tail).length := by
    split <;> simp
  have hwhole := add_digits_le hsign
  have hfraction := add_le_of_drop fractionLength_le hwhole
  have hexponent := add_le_of_drop exponentLength_le hfraction
  have hsuffix := add_le_of_drop suffixLength_le hexponent
  have hkind : ∀ n m : ℕ, (if n = m then Literal.int else .float) ≠ .chars := by
    intro n m
    split <;> simp
  apply ofFront_covers (hkind _ _)
  · by_cases hminus : c = '-'
    · simp only [hc, if_pos hminus]
      omega
    · simp only [hc, if_neg hminus, List.drop_zero, Nat.zero_add]
      by_cases hdigit : Character.isDigit c = true
      · have hpos : 0 < digits (c :: tail) := by simp [digits, hdigit]
        omega
      · -- Neither a sign nor a digit is in front, so that a decimal point is.
        have hdot : c = '.' := by
          by_contra hdot
          simp [Piece.beginsNumber, hc, hdigit, hminus, hdot] at h
        have hzero : digits (c :: tail) = 0 := by simp [digits, hdigit]
        have hpoint : 0 < fractionLength (c :: tail) := by
          simp only [fractionLength, hc, if_pos hdot]
          omega
        simp only [hzero, List.drop_zero, Nat.zero_add]
        omega
  · exact hsuffix

/-! ## Strings and symbols -/

theorem quotedString_covers (h : quotedString rest = .ok x)
    (hq : charAt rest 0 = '\'' ∨ charAt rest 0 = '"') : x.Covers rest := by
  have hne : charAt rest 0 ≠ endMark := by rcases hq with h | h <;> rw [h] <;> decide
  obtain ⟨q, content, r, rfl, hclose, rfl⟩ := quotedString_ok h (ne_nil_of_charAt hne)
  have hstring : Encloses (String.ofList content) (q :: (content ++ q :: r))
      (content.length + 2) := by
    have hfront : q = '\'' ∨ q = '"' := hq
    have hplain : Encloses (String.ofList content) _ _ :=
      .plain hfront (r := r) (by simpa using hclose)
    simpa using hplain
  exact ⟨by simp, by simp, by simp, fun hne => (hne rfl).elim, fun _ => hstring⟩

theorem nationalString_covers (h : quotedString (rest.drop 1) = .ok x)
    (hn : charAt rest 0 = 'N' ∨ charAt rest 0 = 'n') (hq : charAt rest 1 = '\'') :
    Covers { x with length := x.length + 1 } rest := by
  have hlen : 1 < rest.length := lt_length_of_charAt (by rw [hq]; decide)
  obtain ⟨a, tail, rfl⟩ := List.exists_cons_of_length_pos (Nat.zero_lt_of_lt hlen)
  have htail : tail ≠ [] := List.length_pos_iff.1 (by simpa using hlen)
  rw [List.drop_succ_cons, List.drop_zero] at h
  obtain ⟨q, content, r, rfl, hclose, rfl⟩ := quotedString_ok h htail
  obtain rfl : q = '\'' := hq
  have hstring : Encloses (String.ofList content) (a :: '\'' :: (content ++ '\'' :: r))
      (content.length + 2 + 1) := by
    have hfront : a = 'N' ∨ a = 'n' := hn
    have hnational : Encloses (String.ofList content) _ _ :=
      .national hfront (r := r) (by simpa using hclose)
    simpa using hnational
  exact ⟨by simp, by simp, by simp, fun hne => (hne rfl).elim, fun _ => hstring⟩

theorem longestSymbol?_length {n : ℕ} {s : Symbol} {k : ℕ}
    (h : longestSymbol? rest n = some (s, k)) : 0 < k ∧ k ≤ n := by
  induction n with
  | zero => cases h
  | succ n ih =>
    simp only [longestSymbol?] at h
    split at h
    · obtain ⟨-, rfl⟩ := Prod.mk.inj (Option.some.inj h)
      exact ⟨Nat.succ_pos n, Nat.le_refl _⟩
    · have hk := ih h
      omega

theorem symbol_covers (h : symbol rest = .ok x) : x.Covers rest := by
  simp only [symbol] at h
  split at h
  · next s k hs =>
    obtain rfl := Except.ok.inj h
    obtain ⟨hpos, hk⟩ := longestSymbol?_length hs
    have hrun := (List.takeWhile_prefix Character.isSymbol (l := rest)).length_le
    exact ⟨hpos, hk.trans hrun, by simp, fun _ => rfl, by simp⟩
  · cases h

end Lexeme

/-! ## Lexemes in front -/

inductive Piece.Reads (d : Dialect) (before : Option Char) (rest : List Char) : Lexeme → Prop
  | variableName : charAt rest 0 = '@' → Reads d before rest (Lexeme.variableName rest)
  | national {x : Lexeme} : charAt rest 0 = 'N' ∨ charAt rest 0 = 'n' → charAt rest 1 = '\'' →
      Lexeme.quotedString (rest.drop 1) = .ok x →
      Reads d before rest { x with length := x.length + 1 }
  | word {x : Lexeme} : beginsWord d.lexis (charAt rest 0) = true →
      Lexeme.word d rest = .ok x → Reads d before rest x
  | hex : charAt rest 0 = '0' → charAt rest 1 = 'x' ∨ charAt rest 1 = 'X' →
      Reads d before rest (Lexeme.hexNumber rest)
  | number : beginsNumber d.lexis before rest = true → Reads d before rest (Lexeme.number rest)
  | symbol {x : Lexeme} : Lexeme.symbol rest = .ok x → Reads d before rest x
  | string {x : Lexeme} : charAt rest 0 = '\'' ∨ charAt rest 0 = '"' →
      Lexeme.quotedString rest = .ok x → Reads d before rest x

theorem Piece.here_ok {r : Except LexicalCause Lexeme} (h : here r = .ok (.lexeme x)) :
    r = .ok x := by
  cases r with
  | error cause => cases h
  | ok y => exact congrArg Except.ok (Piece.lexeme.inj (Except.ok.inj h))

theorem Piece.significant_reads {before : Option Char}
    (h : significant d before rest = .ok (.lexeme x)) : Reads d before rest x := by
  simp only [significant] at h
  split at h
  · next hat =>
    simp only [Bool.and_eq_true, beq_iff_eq] at hat
    cases h
    exact .variableName hat.2
  split at h
  · next hat =>
    simp only [Bool.and_eq_true, Bool.or_eq_true, beq_iff_eq] at hat
    simp only [nationalString] at h
    split at h
    · next y hy =>
      obtain rfl := Piece.lexeme.inj (Except.ok.inj h)
      exact .national hat.1.2 hat.2 hy
    · cases h
  split at h
  · next hbegins => exact .word hbegins (here_ok h)
  split at h
  · next hat =>
    simp only [Bool.and_eq_true, Bool.or_eq_true, beq_iff_eq] at hat
    cases h
    exact .hex hat.1 hat.2
  split at h
  · next hbegins =>
    cases h
    exact .number hbegins
  split at h
  · exact .symbol (here_ok h)
  split at h
  · next hquote =>
    simp only [Bool.or_eq_true, beq_iff_eq] at hquote
    exact .string hquote (here_ok h)
  · split at h <;> cases h

theorem Piece.significant_covers {before : Option Char}
    (h : Piece.significant d before rest = .ok (.lexeme x)) : x.Covers rest := by
  cases significant_reads h with
  | variableName hat => exact Lexeme.variableName_covers hat
  | national hn hquote hx => exact Lexeme.nationalString_covers hx hn hquote
  | word hbegins hx => exact Lexeme.word_covers hx hbegins
  | hex _ hmark =>
    apply Lexeme.hexNumber_covers
    apply lt_length_of_charAt
    rcases hmark with hx | hx <;> rw [hx] <;> decide
  | number hbegins => exact Lexeme.number_covers hbegins
  | symbol hx => exact Lexeme.symbol_covers hx
  | string hquote hx => exact Lexeme.quotedString_covers hx hquote

theorem Piece.next_covers {before : Option Char}
    (h : Piece.next d before rest = .ok (.lexeme x)) : x.Covers rest := by
  unfold Piece.next at h
  split at h
  · cases h
  · exact significant_covers h
  · cases h

end SqlFront

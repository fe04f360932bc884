import SqlFront.Proofs.Lexeme.Last
import SqlFront.Proofs.Lexeme.Placed

/-!
# The edges of a token

A token begins and ends with a character that is no white space, so that trimming leaves the text
from one token to another as it is. Quoted text begins and ends with its quotes, and every character
of what is not quoted belongs to a class without white space.
-/

set_option autoImplicit false

namespace SqlFront

variable {d : Dialect} {before : Option Char} {text rest : List Char} {t u : Token} {x : Lexeme}
  {n m : ℕ}

/-! ## Trimming -/

structure Edged (cs : List Char) : Prop where
  first : ∀ c ∈ cs.head?, isWhiteSpace c = false
  last : ∀ c ∈ cs.getLast?, isWhiteSpace c = false

theorem dropWhile_of_front {cs : List Char} (h : ∀ c ∈ cs.head?, isWhiteSpace c = false) :
    cs.dropWhile isWhiteSpace = cs := by
  cases cs with
  | nil => rfl
  | cons c cs => simp [h c rfl]

/-- Nothing is trimmed between edges that are no white space. -/
theorem Edged.trimmed {s : String} (h : Edged s.toList) : trimmed s = s := by
  have hback : s.toList.reverse.dropWhile isWhiteSpace = s.toList.reverse :=
    dropWhile_of_front (by simpa [List.head?_reverse] using h.last)
  simp only [SqlFront.trimmed, dropWhile_of_front h.first, hback, List.reverse_reverse,
    String.ofList_toList]

/-! ## Classes without white space -/

def Inked (n : ℕ) (rest : List Char) : Prop := ∀ c ∈ rest.take n, isWhiteSpace c = false

theorem Inked.edged (h : Inked n rest) : Edged (rest.take n) :=
  ⟨fun c hc => h c (List.mem_of_mem_head? hc), fun c hc => h c (List.mem_of_mem_getLast? hc)⟩

theorem Inked.zero : Inked 0 rest := by
  intro c hc
  simp at hc

theorem Inked.mono (h : Inked n rest) (hm : m ≤ n) : Inked m rest := fun c hc =>
  h c ((List.take_prefix_take_left hm).subset hc)

theorem Inked.one (h : isWhiteSpace (charAt rest 0) = false) : Inked 1 rest := by
  cases rest with
  | nil => simp [Inked]
  | cons c rest =>
    have hc : isWhiteSpace c = false := h
    simpa [Inked] using hc

theorem Inked.add (h : Inked n rest) (hm : Inked m (rest.drop n)) : Inked (n + m) rest := by
  intro c hc
  rw [List.take_add, List.mem_append] at hc
  exact hc.elim (h c) (hm c)

theorem Inked.takeWhile {p : Char → Bool} (hp : ∀ c, p c = true → isWhiteSpace c = false) :
    Inked (rest.takeWhile p).length rest := by
  intro c hc
  rw [← List.prefix_iff_eq_take.1 (List.takeWhile_prefix p)] at hc
  exact hp c (List.mem_takeWhile_imp hc)

theorem isWhiteSpace_of_printable {c : Char} (h : 32 < c.toNat ∧ c.toNat < 127) :
    isWhiteSpace c = false := by
  simp only [isWhiteSpace, Bool.or_eq_false_iff, Bool.and_eq_false_iff, decide_eq_false_iff_not,
    beq_eq_false_iff_ne]
  omega

theorem isWhiteSpace_of_isLetter {c : Char} (h : Character.isLetter c = true) :
    isWhiteSpace c = false := by
  have hrange : (97 ≤ c.toNat ∧ c.toNat ≤ 122) ∨ (65 ≤ c.toNat ∧ c.toNat ≤ 90) := by
    simpa [Character.isLetter, UInt32.le_iff_toNat_le] using h
  exact isWhiteSpace_of_printable (by omega)

theorem isWhiteSpace_of_isDigit {c : Char} (h : Character.isDigit c = true) :
    isWhiteSpace c = false := by
  have hrange : 48 ≤ c.toNat ∧ c.toNat ≤ 57 := by
    simpa [Character.isDigit, UInt32.le_iff_toNat_le] using h
  exact isWhiteSpace_of_printable (by omega)

theorem isWhiteSpace_of_isHexDigit {c : Char} (h : Character.isHexDigit c = true) :
    isWhiteSpace c = false := by
  have hrange : (48 ≤ c.toNat ∧ c.toNat ≤ 57) ∨ (97 ≤ c.toNat ∧ c.toNat ≤ 102) ∨
      (65 ≤ c.toNat ∧ c.toNat ≤ 70) := by
    simpa [Character.isHexDigit, Character.isDigit, UInt32.le_iff_toNat_le, or_assoc] using h
  exact isWhiteSpace_of_printable (by omega)

theorem isWhiteSpace_of_isWord {c : Char} (h : Character.isWord c = true) :
    isWhiteSpace c = false := by
  simp only [Character.isWord, Bool.or_eq_true, beq_iff_eq] at h
  rcases h with (((h | h) | rfl) | rfl) | rfl
  · exact isWhiteSpace_of_isLetter h
  · exact isWhiteSpace_of_isDigit h
  all_goals decide

theorem isWhiteSpace_of_isVariable {c : Char} (h : Character.isVariable c = true) :
    isWhiteSpace c = false := by
  simp only [Character.isVariable, Bool.or_eq_true, beq_iff_eq] at h
  rcases h with h | rfl
  · exact isWhiteSpace_of_isWord h
  · decide

theorem isWhiteSpace_of_isSymbol {c : Char} (h : Character.isSymbol c = true) :
    isWhiteSpace c = false := by
  have hall : ∀ x ∈ Character.symbolCharacters, isWhiteSpace x = false := by
    simp [Character.symbolCharacters, isWhiteSpace]
  exact hall c (by simpa [Character.isSymbol] using h)

/-! ## Lexemes -/

namespace Lexeme

theorem edged_quoted {q c : Char} {tail : List Char} (hc : isWhiteSpace c = false)
    (hq : isWhiteSpace q = false) (h : Quoted.length? q (c :: tail) = some n) :
    Edged ((c :: tail).take n) := by
  obtain ⟨k, hk, rfl⟩ := Option.map_eq_some_iff.1 h
  obtain ⟨content, r, htail, rfl⟩ := Quoted.closing?_content hk
  rw [List.tail_cons] at htail
  have htake : (c :: tail).take (content.length + 1 + 1) = c :: (content ++ [q]) := by
    rw [htail]
    simp [List.take_append]
  rw [htake]
  refine ⟨?_, ?_⟩
  · simpa using hc
  · rw [← List.cons_append, List.getLast?_concat]
    simpa using hq

theorem inked_signed {c : Char} {p : Char → Bool} (hc : isWhiteSpace c = false)
    (hp : ∀ c, p c = true → isWhiteSpace c = false) : Inked (signedLength c p rest) rest := by
  refine .add ?_ (.takeWhile hp)
  split
  · next hfront => exact .one (hfront ▸ hc)
  · exact .zero

theorem inked_fraction : Inked (fractionLength rest) rest := by
  unfold fractionLength
  split
  · next hfront => exact (Inked.one (by rw [hfront]; decide)).add (.takeWhile fun _ => isWhiteSpace_of_isDigit)
  · exact .zero

theorem inked_exponent : Inked (exponentLength rest) rest := by
  unfold exponentLength
  split
  · next hfront =>
    have hletter : Inked 1 rest := .one (by rcases hfront with h | h <;> rw [h] <;> decide)
    refine .add ?_ (.takeWhile fun _ => isWhiteSpace_of_isDigit)
    split
    · next hsign =>
      refine hletter.add (.one ?_)
      rw [charAt_drop]
      rcases hsign with h | h <;> rw [h] <;> decide
    · exact hletter
  · exact .zero

theorem inked_suffix : Inked (suffixLength rest) rest := by
  unfold suffixLength
  by_cases h : charAt rest 0 = 'f' ∨ charAt rest 0 = 'F' ∨ charAt rest 0 = 'd' ∨
      charAt rest 0 = 'D'
  · rw [if_pos h]
    exact .one (by rcases h with h | h | h | h <;> rw [h] <;> decide)
  · rw [if_neg h]
    exact .zero

theorem inked_number : Inked (numberLength rest) rest :=
  (((inked_signed (by decide) fun _ => isWhiteSpace_of_isDigit).add inked_fraction).add
    inked_exponent).add inked_suffix

theorem variableName_edged (h : charAt rest 0 = '@') :
    Edged (rest.take (variableName rest).length) := by
  cases rest with
  | nil => exact ⟨by simp, by simp⟩
  | cons c rest =>
    have hsign : Inked 1 (c :: rest) := .one (by rw [h]; decide)
    rw [variableName_eq]
    exact (hsign.add (inked_signed (c := '@') (by decide) fun _ => isWhiteSpace_of_isVariable)).edged

theorem hexNumber_edged (h : charAt rest 0 = '0')
    (hx : charAt rest 1 = 'x' ∨ charAt rest 1 = 'X') :
    Edged (rest.take (hexNumber rest).length) := by
  match rest with
  | [] => exact ⟨by simp, by simp⟩
  | [c] =>
    change endMark = 'x' ∨ endMark = 'X' at hx
    exact absurd hx (by decide)
  | c :: c' :: rest =>
    have hzero : Inked 1 (c :: c' :: rest) := .one (by rw [h]; decide)
    have hletter : Inked 1 (c' :: rest) := by
      change c' = 'x' ∨ c' = 'X' at hx
      have hspace : isWhiteSpace c' = false := by rcases hx with rfl | rfl <;> decide
      exact .one hspace
    rw [hexNumber_eq]
    exact ((hzero.add hletter).add
      (inked_signed (c := '-') (by decide) fun _ => isWhiteSpace_of_isHexDigit)).edged

theorem word_edged (h : word d rest = .ok x) : Edged (rest.take x.length) := by
  cases rest with
  | nil => exact ⟨by simp, by simp⟩
  | cons c tail =>
    have hfront : charAt (c :: tail) 0 = c := rfl
    simp only [word, hfront] at h
    split at h
    · next hquote =>
      simp only [quotedWord, hfront] at h
      split at h
      · next n hn =>
        obtain rfl := Except.ok.inj h
        rcases hquote with rfl | rfl | rfl <;> exact edged_quoted (by decide) (by decide) hn
      · cases h
    · obtain rfl := Except.ok.inj h
      exact (Inked.takeWhile fun _ => isWhiteSpace_of_isWord).edged

theorem symbol_edged (h : symbol rest = .ok x) : Edged (rest.take x.length) := by
  simp only [symbol] at h
  split at h
  · next s k hs =>
    obtain rfl := Except.ok.inj h
    obtain ⟨-, hk⟩ := longestSymbol?_length hs
    have hrun : Inked (rest.takeWhile Character.isSymbol).length rest :=
      .takeWhile fun _ => isWhiteSpace_of_isSymbol
    exact (hrun.mono hk).edged
  · cases h

end Lexeme

theorem Quotes.edged {l : String} {cs : List Char} (h : Quotes l cs) : Edged cs := by
  cases h with
  | plain hq =>
    refine ⟨?_, ?_⟩
    · rcases hq with rfl | rfl <;> simp <;> decide
    · rw [← List.cons_append, List.getLast?_concat]
      rcases hq with rfl | rfl <;> simp <;> decide
  | national hn =>
    refine ⟨?_, ?_⟩
    · rcases hn with rfl | rfl <;> simp <;> decide
    · rw [← List.cons_append, ← List.cons_append, List.getLast?_concat]
      simp
      decide

theorem Piece.significant_edged (h : significant d before rest = .ok (.lexeme x)) :
    Edged (rest.take x.length) := by
  by_cases hstring : x.type = .literal .chars
  · exact ((significant_covers h).string hstring).quotes.edged
  cases significant_reads h with
  | variableName hat => exact Lexeme.variableName_edged hat
  | national _ _ hy => exact (hstring (Lexeme.quotedString_type hy :)).elim
  | word _ hx => exact Lexeme.word_edged hx
  | hex hzero hmark => exact Lexeme.hexNumber_edged hzero hmark
  | number _ => exact Lexeme.inked_number.edged
  | symbol hx => exact Lexeme.symbol_edged hx
  | string _ hx => exact (hstring (Lexeme.quotedString_type hx)).elim

/-! ## Tokens -/

theorem TokenStream.edged (h : t ∈ (ofText d text).tokens) :
    Edged (between text t.start t.stop) := by
  obtain ⟨k, before, x, hx, rfl⟩ := mem_scan h
  have hbetween : between text (0 + k) (0 + k + x.length) = (text.drop k).take x.length := by
    rw [between, List.drop_take, Nat.zero_add, Nat.add_sub_cancel_left]
  have hplace : between text (x.place (0 + k)).start (x.place (0 + k)).stop =
      (text.drop k).take x.length := hbetween
  rw [hplace]
  exact Piece.significant_edged hx

theorem head?_between {a b : ℕ} (h : a < b) : (between text a b).head? = text[a]? := by
  rw [between, List.head?_drop, List.getElem?_take_of_lt h]

theorem getLast?_between {a b : ℕ} (h : a < b) (hb : b ≤ text.length) :
    (between text a b).getLast? = text[b - 1]? := by
  have hlen : (text.take b).length = b := List.length_take_of_le hb
  rw [between, List.getLast?_drop, if_neg (by omega), List.getLast?_eq_getElem?, hlen,
    List.getElem?_take_of_lt (by omega)]

theorem TokenStream.trimmed_slice (ht : t ∈ (ofText d text).tokens)
    (hu : u ∈ (ofText d text).tokens) (hle : t.start < u.stop) :
    trimmed (slice text t.start u.stop) = slice text t.start u.stop := by
  have hstop := (standsIn hu).stop
  apply Edged.trimmed
  have hedges : Edged (between text t.start u.stop) := by
    constructor
    · rw [head?_between hle, ← head?_between (standsIn ht).nonempty]
      exact (edged ht).first
    · rw [getLast?_between hle hstop, ← getLast?_between (standsIn hu).nonempty hstop]
      exact (edged hu).last
  rwa [slice, String.toList_ofList]

end SqlFront

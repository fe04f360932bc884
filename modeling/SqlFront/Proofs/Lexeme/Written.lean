import SqlFront.Proofs.Lexeme.Closing

/-!
# Words that a text is written with

A text that is put together from words, blanks and parentheses has these words again.
-/

set_option autoImplicit false

namespace SqlFront

variable {d : Dialect} {before before' : Option Char} {rest : List Char} {c : Char} {n : ℕ}
  {ws : List (TokenType × String)}

/-! ## The character before -/

theorem Piece.next_before (h : before.any (beginsWord d.lexis) = before'.any (beginsWord d.lexis)) :
    next d before rest = next d before' rest := by
  unfold next significant beginsNumber
  rw [h]

theorem Spells.before_iff
    (h : before.any (Piece.beginsWord d.lexis) = before'.any (Piece.beginsWord d.lexis)) :
    Spells d before rest ws ↔ Spells d before' rest ws := by
  have hnext : Piece.next d before rest = Piece.next d before' rest := Piece.next_before h
  cases hp : Piece.next d before' rest with
  | error fault =>
    exact iff_of_false (not_of_fault (hnext.trans hp)) (not_of_fault hp)
  | ok p =>
    cases p with
    | atEnd =>
      obtain rfl := Piece.next_atEnd hp
      rw [nil_iff, nil_iff]
    | ignored k => rw [ignored_iff (hnext.trans hp), ignored_iff hp]
    | lexeme x => rw [lexeme_iff (hnext.trans hp), lexeme_iff hp]

/-! ## Parentheses and blanks -/

theorem Ignored.stretch_eq_blanks (hc : c ∉ ['/', '-', '#']) :
    stretch d.lexis (c :: rest) = .ok (blanks (c :: rest)) := by
  simp only [List.mem_cons, List.not_mem_nil, or_false, not_or] at hc
  have hhint : hintOpening? d.lexis (c :: rest) = none := by
    cases d <;> simp [hintOpening?, Dialect.lexis, Ne.symm hc.1]
  have hat : isComment d.lexis (c :: rest) = false := by
    simp [isComment, charAt, hc.1, hc.2.1, hc.2.2]
  rw [stretch, hhint]
  simp [hat]

/-- No ignored text begins with this character. -/
theorem Ignored.stretch_zero (hb : Character.isBlank c = false) (hc : c ∉ ['/', '-', '#']) :
    stretch d.lexis (c :: rest) = .ok 0 := by
  rw [stretch_eq_blanks hc]
  simp [blanks, hb]

theorem longestSymbol?_paren_front {s : Symbol} (hc : c = '(' ∨ c = ')')
    (hs : Symbol.ofSpelling? (String.ofList [c]) = some s) (hn : n ≤ rest.length) :
    Lexeme.longestSymbol? (c :: rest) (n + 1) = some (s, 1) := by
  induction n with
  | zero => simp only [Lexeme.longestSymbol?, List.take_succ_cons, List.take_zero, hs]
  | succ n ih =>
    have hlen : 1 < ((c :: rest).take (n + 2)).length := by
      rw [List.length_take, List.length_cons]
      omega
    rw [Lexeme.longestSymbol?, Lexeme.ofSpelling?_paren hc (by simp) hlen]
    exact ih (by omega)

theorem Piece.next_parenthesis {s : Symbol} (hc : c = '(' ∨ c = ')')
    (hs : Symbol.ofSpelling? (String.ofList [c]) = some s) :
    next d before (c :: rest) = .ok (.lexeme ⟨.symbol s, String.ofList [c], 1⟩) := by
  have hstretch : Ignored.stretch d.lexis (c :: rest) = .ok 0 := by
    rcases hc with rfl | rfl <;> exact Ignored.stretch_zero (by decide) (by decide)
  have hsymbol : Lexeme.symbol (c :: rest) = .ok ⟨.symbol s, String.ofList [c], 1⟩ := by
    have hfront : Character.isSymbol c = true := by rcases hc with rfl | rfl <;> decide
    have hle := (List.takeWhile_prefix Character.isSymbol (l := rest)).length_le
    simp only [Lexeme.symbol, List.takeWhile_cons, hfront, if_true, List.length_cons]
    rw [longestSymbol?_paren_front hc hs hle]
    simp
  have hsignificant : significant d before (c :: rest) = here (Lexeme.symbol (c :: rest)) := by
    rcases hc with rfl | rfl <;> cases d <;> rfl
  rw [next, hstretch]
  simp only [hsignificant, hsymbol, here]

theorem Spells.leftParen_iff : Spells d before ('(' :: rest) ws ↔
    ∃ us, ws = (.symbol .leftParen, "(") :: us ∧ Spells d (some '(') rest us :=
  lexeme_iff (Piece.next_parenthesis (Or.inl rfl) (s := .leftParen) (by decide))

theorem Spells.rightParen_iff : Spells d before (')' :: rest) ws ↔
    ∃ us, ws = (.symbol .rightParen, ")") :: us ∧ Spells d (some ')') rest us :=
  lexeme_iff (Piece.next_parenthesis (Or.inr rfl) (s := .rightParen) (by decide))

theorem Piece.next_space (h : Character.isBlank (charAt rest 0) = false) :
    next d before (' ' :: rest) = .ok (.ignored 1) := by
  have hblanks : Ignored.blanks (' ' :: rest) = 1 := by
    have hspace : Character.isBlank ' ' = true := by decide
    cases rest with
    | nil => rfl
    | cons c rest =>
      have hc : Character.isBlank c = false := h
      simp [Ignored.blanks, hspace, hc]
  rw [next, Ignored.stretch_eq_blanks (by decide), hblanks]
  rfl

theorem Spells.space_iff (h : Character.isBlank (charAt rest 0) = false) :
    Spells d before (' ' :: rest) ws ↔ Spells d (some ' ') rest ws :=
  ignored_iff (Piece.next_space h)

/-! ## Bare words -/

theorem Character.isBlank_of_printable (h : 32 < c.val.toNat ∧ c.val.toNat < 127) :
    isBlank c = false := by
  have hlow : ¬c.val ≤ 0x20 := by
    rw [UInt32.le_iff_toNat_le]
    simp only [UInt32.reduceToNat]
    omega
  have hhigh : ¬0x7f ≤ c.val := by
    rw [UInt32.le_iff_toNat_le]
    simp only [UInt32.reduceToNat]
    omega
  simp [isBlank, hlow, hhigh]

theorem Character.isBlank_of_isLetter (h : isLetter c = true) : isBlank c = false := by
  have hrange : (97 ≤ c.val.toNat ∧ c.val.toNat ≤ 122) ∨ (65 ≤ c.val.toNat ∧ c.val.toNat ≤ 90) := by
    simpa [isLetter, UInt32.le_iff_toNat_le] using h
  exact isBlank_of_printable (by omega)

theorem Character.isBlank_of_isDigit (h : isDigit c = true) : isBlank c = false := by
  have hrange : 48 ≤ c.val.toNat ∧ c.val.toNat ≤ 57 := by
    simpa [isDigit, UInt32.le_iff_toNat_le] using h
  exact isBlank_of_printable (by omega)

structure IsBare (w : List Char) : Prop where
  all : w.all Character.isWord = true
  letter : Character.isLetter (charAt w 0) = true
  long : 1 < w.length

theorem IsBare.isWord {w : List Char} (h : IsBare w) : ∀ c ∈ w, Character.isWord c = true :=
  List.all_eq_true.1 h.all

theorem Piece.next_bare {w : List Char} (hw : IsBare w)
    (hrest : Character.isWord (charAt rest 0) = false) :
    next d before (w ++ rest) = .ok (.lexeme
      ⟨Lexeme.wordType d (String.ofList w) rest, String.ofList w, w.length⟩) := by
  obtain ⟨c, c', v, rfl⟩ : ∃ c c' v, w = c :: c' :: v := by
    have hlen := hw.long
    match w with
    | c :: c' :: v => exact ⟨c, c', v, rfl⟩
  have hletter : Character.isLetter c = true := hw.letter
  have hother : ∀ x, Character.isLetter x = false → c ≠ x := by
    rintro x hx rfl
    rw [hletter] at hx
    cases hx
  have hquote : c' ≠ '\'' := by
    rintro rfl
    exact absurd (hw.isWord '\'' (by simp)) (by decide)
  have hstretch : Ignored.stretch d.lexis (c :: c' :: v ++ rest) = .ok 0 := by
    apply Ignored.stretch_zero (Character.isBlank_of_isLetter hletter)
    simp [hother _ (by decide : Character.isLetter '/' = false),
      hother _ (by decide : Character.isLetter '-' = false),
      hother _ (by decide : Character.isLetter '#' = false)]
  have htake : (c :: c' :: v ++ rest).takeWhile Character.isWord = c :: c' :: v := by
    rw [List.takeWhile_append_of_pos hw.isWord]
    cases rest with
    | nil => simp
    | cons x rest =>
      have hx : Character.isWord x = false := hrest
      simp [hx]
  have hword : Lexeme.word d (c :: c' :: v ++ rest) = .ok
      ⟨Lexeme.wordType d (String.ofList (c :: c' :: v)) rest, String.ofList (c :: c' :: v),
        (c :: c' :: v).length⟩ := by
    have hfirst : charAt (c :: c' :: v ++ rest) 0 = c := rfl
    simp only [Lexeme.word, hfirst, hother _ (by decide : Character.isLetter '\x60' = false),
      hother _ (by decide : Character.isLetter '"' = false),
      hother _ (by decide : Character.isLetter '[' = false), or_self, if_false, Lexeme.bareWord,
      htake, List.drop_left]
  have hfirst : charAt (c :: c' :: v ++ rest) 0 = c := rfl
  have hsecond : charAt (c :: c' :: v ++ rest) 1 = c' := rfl
  have hsignificant : significant d before (c :: c' :: v ++ rest) =
      here (Lexeme.word d (c :: c' :: v ++ rest)) := by
    have hbegins : beginsWord d.lexis c = true := by simp [beginsWord, hletter]
    simp only [significant, hfirst, hsecond, beq_eq_false_iff_ne.2 hquote, Bool.and_false,
      beq_eq_false_iff_ne.2 (hother _ (by decide : Character.isLetter '@' = false)), hbegins]
    rfl
  rw [next, hstretch]
  simp only [hsignificant, hword, here]

end SqlFront

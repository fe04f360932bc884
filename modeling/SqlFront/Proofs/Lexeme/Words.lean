import SqlFront.Proofs.Lexeme.Tiling

/-!
# The words of a text

Apart from their places, the tokens of a text are its words. A text has the words that its pieces
give one after the other, each judged by the text from it on and by the character before it.
-/

set_option autoImplicit false

namespace SqlFront

variable {d : Dialect} {before : Option Char} {text rest : List Char} {k : ℕ}

def Token.word (t : Token) : TokenType × String := (t.type, t.literals)

def HasWords (d : Dialect) (text : List Char) (ws : List (TokenType × String)) : Prop :=
  ∃ ts last, (TokenStream.ofText d text).all = .ok (ts ++ [last]) ∧ ts.map Token.word = ws

inductive Spells (d : Dialect) : Option Char → List Char → List (TokenType × String) → Prop
  | atEnd {before : Option Char} : Spells d before [] []
  | ignored {before : Option Char} {rest : List Char} {k : ℕ} {ws : List (TokenType × String)} :
      Piece.next d before rest = .ok (.ignored k) →
      Spells d (rest.take k).getLast? (rest.drop k) ws → Spells d before rest ws
  | lexeme {before : Option Char} {rest : List Char} {x : Lexeme}
      {ws : List (TokenType × String)} : Piece.next d before rest = .ok (.lexeme x) →
      Spells d (rest.take x.length).getLast? (rest.drop x.length) ws →
      Spells d before rest ((x.type, x.literals) :: ws)

theorem Piece.next_nil : Piece.next d before [] = .ok .atEnd := by
  cases d <;> rfl

namespace Spells

variable {ws : List (TokenType × String)}

theorem nil_iff : Spells d before [] ws ↔ ws = [] := by
  constructor
  · intro h
    cases h with
    | atEnd => rfl
    | ignored h | lexeme h => rw [Piece.next_nil] at h; cases h
  · rintro rfl
    exact .atEnd

theorem ignored_iff (h : Piece.next d before rest = .ok (.ignored k)) :
    Spells d before rest ws ↔ Spells d (rest.take k).getLast? (rest.drop k) ws := by
  constructor
  · intro hs
    cases hs with
    | atEnd => rw [Piece.next_nil] at h; cases h
    | ignored h' hs =>
      rw [h] at h'
      cases h'
      exact hs
    | lexeme h' => rw [h] at h'; cases h'
  · exact .ignored h

theorem lexeme_iff {x : Lexeme} (h : Piece.next d before rest = .ok (.lexeme x)) :
    Spells d before rest ws ↔ ∃ us, ws = (x.type, x.literals) :: us ∧
      Spells d (rest.take x.length).getLast? (rest.drop x.length) us := by
  constructor
  · intro hs
    cases hs with
    | atEnd => rw [Piece.next_nil] at h; cases h
    | ignored h' => rw [h] at h'; cases h'
    | lexeme h' hs =>
      rw [h] at h'
      cases h'
      exact ⟨_, rfl, hs⟩
  · rintro ⟨us, rfl, hs⟩
    exact .lexeme h hs

theorem not_of_fault {fault : LexicalFault} (h : Piece.next d before rest = .error fault) :
    ¬Spells d before rest ws := by
  intro hs
  cases hs with
  | atEnd => rw [Piece.next_nil] at h; cases h
  | ignored h' | lexeme h' => rw [h] at h'; cases h'

/-- A text has its words only. -/
theorem unique {us : List (TokenType × String)} (h : Spells d before rest ws)
    (h' : Spells d before rest us) : ws = us := by
  induction h generalizing us with
  | atEnd => exact (nil_iff.1 h').symm
  | ignored hp _ ih => exact ih ((ignored_iff hp).1 h')
  | lexeme hp _ ih =>
    obtain ⟨us, rfl, hs⟩ := (lexeme_iff hp).1 h'
    rw [ih hs]

end Spells

/-- The words of a text are those that cutting it gives. -/
theorem TokenStream.scan_spells {offset : ℕ} {ws : List (TokenType × String)}
    (hk : rest.length ≤ k) :
    Spells d before rest ws ↔ (scan d k before offset rest).tokens.map Token.word = ws ∧
      ∃ e, (scan d k before offset rest).ending = .ok e := by
  induction k generalizing before offset rest ws with
  | zero =>
    obtain rfl := List.eq_nil_of_length_eq_zero (Nat.le_zero.1 hk)
    rw [Spells.nil_iff]
    simp [scan, eq_comm]
  | succ k ih =>
    cases hp : Piece.next d before rest with
    | error fault =>
      simp [scan, hp, Spells.not_of_fault hp]
    | ok p =>
      cases p with
      | atEnd =>
        obtain rfl := Piece.next_atEnd hp
        rw [Spells.nil_iff]
        simp [scan, hp, eq_comm]
      | ignored n =>
        have hpos := (Piece.next_ignored hp).1
        have hbehind : (rest.drop n).length ≤ k := by
          rw [List.length_drop]
          omega
        rw [Spells.ignored_iff hp, @ih _ (rest.drop n) (offset + n) ws hbehind]
        simp only [scan, hp]
      | lexeme x =>
        have hpos := (Piece.next_covers hp).pos
        rw [Spells.lexeme_iff hp]
        simp only [scan, hp, push, List.map_cons]
        have hbehind := fun us => @ih (rest.take x.length).getLast? (rest.drop x.length)
          (offset + x.length) us (by rw [List.length_drop]; omega)
        simp only [hbehind]
        constructor
        · rintro ⟨us, rfl, rfl, hend⟩
          exact ⟨rfl, hend⟩
        · rintro ⟨rfl, hend⟩
          exact ⟨_, rfl, rfl, hend⟩

theorem hasWords_iff {ws : List (TokenType × String)} :
    HasWords d text ws ↔ Spells d none text ws := by
  have hscan : Spells d none text ws ↔ (TokenStream.ofText d text).tokens.map Token.word = ws ∧
      ∃ e, (TokenStream.ofText d text).ending = .ok e :=
    TokenStream.scan_spells (Nat.le_refl _)
  rw [hscan]
  unfold HasWords TokenStream.all
  cases (TokenStream.ofText d text).ending with
  | error fault => simp
  | ok e =>
    constructor
    · rintro ⟨ts, last, hall, hws⟩
      obtain ⟨rfl, -⟩ := List.append_inj' (Except.ok.inj hall) rfl
      exact ⟨hws, e, rfl⟩
    · rintro ⟨hws, -⟩
      exact ⟨_, e, rfl, hws⟩

end SqlFront

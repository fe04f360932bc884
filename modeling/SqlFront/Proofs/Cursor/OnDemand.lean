import SqlFront.Cursor
import SqlFront.Proofs.Lexeme.Transparent

/-!
# Reading on demand

A token can be read from any place of a text, with nothing but the text at hand. From the end of a
token on, that gives the next token of the text. So a reader that keeps no tokens, and reads one
each time it is asked for one, comes to the same tokens as a reader that has cut the whole text.
-/

set_option autoImplicit false

namespace SqlFront

variable {d : Dialect} {text : List Char} {t : Token} {ts xs zs : List Token} {n m place : ℕ}

/-! ## From a place on -/

namespace TokenStream

def first (s : TokenStream) : Except LexicalFault Token :=
  match s.tokens with
  | t :: _ => .ok t
  | [] => s.ending

def readWithin (d : Dialect) (text : List Char) : ℕ → ℕ → Except LexicalFault Token
  | 0, place => .ok (Token.atEnd place)
  | n + 1, place =>
    match Piece.next d (text.take place).getLast? (text.drop place) with
    | .error fault => .error { fault with offset := place + fault.offset }
    | .ok .atEnd => .ok (Token.atEnd place)
    | .ok (.ignored k) => readWithin d text n (place + k)
    | .ok (.lexeme x) => .ok (x.place place)

def readFrom (d : Dialect) (text : List Char) (place : ℕ) : Except LexicalFault Token :=
  readWithin d text (text.length - place) place

theorem getLast?_piece {k : ℕ} (hk : 0 < k) (hrest : text.drop place ≠ []) :
    ((text.drop place).take k).getLast? = (text.take (place + k)).getLast? := by
  have hne : (text.drop place).take k ≠ [] := by
    simpa [List.take_eq_nil_iff, hk.ne'] using hrest
  rw [List.take_add, List.getLast?_append, List.getLast?_eq_some_getLast hne, Option.some_or]

theorem readWithin_nil (hnil : text.drop place = []) : readWithin d text n place =
    (scan d m (text.take place).getLast? place (text.drop place)).first := by
  rw [hnil]
  cases n <;> cases m <;> simp [readWithin, scan, first, hnil, Piece.next_nil]

theorem readWithin_eq_first (hn : text.length - place ≤ n) (hm : text.length - place ≤ m) :
    readWithin d text n place =
      (scan d m (text.take place).getLast? place (text.drop place)).first := by
  -- By induction on the bound of the reader. Its bound and that of the stream need not be the same,
  -- as long as both are large enough.
  induction n generalizing m place with
  | zero => exact readWithin_nil (List.drop_eq_nil_of_le (by omega))
  | succ n ih =>
    by_cases hrest : text.drop place = []
    · exact readWithin_nil hrest
    have hlt : place < text.length := by simpa using hrest
    obtain ⟨m, rfl⟩ : ∃ k, m = k + 1 := Nat.exists_eq_add_one.2 (by omega)
    cases hp : Piece.next d (text.take place).getLast? (text.drop place) with
    | error fault => simp [readWithin, scan, first, hp]
    | ok piece =>
      cases piece with
      | atEnd => simp [readWithin, scan, first, hp]
      | lexeme x => simp [readWithin, scan, first, push, hp]
      | ignored k =>
        have hk := (Piece.next_ignored hp).1
        simp only [readWithin, scan, hp]
        rw [getLast?_piece hk hrest, List.drop_drop]
        exact ih (by omega) (by omega)

theorem readFrom_eq_first (hm : text.length - place ≤ m) : readFrom d text place =
    (scan d m (text.take place).getLast? place (text.drop place)).first :=
  readWithin_eq_first le_rfl hm

end TokenStream

theorem Leads.last_eq {a u : List Char} {before last : Option Char} (h : Leads d a before n u ts last) :
    last = u.getLast?.or before := by
  induction h with
  | nil => rfl
  | @ignored before last n k u ts _ hk _ ih =>
    rw [ih, ← List.getLast?_append, List.take_append_drop]
    have hne : u ≠ [] := List.ne_nil_of_length_pos (by omega)
    rw [List.getLast?_eq_some_getLast hne, Option.some_or]
  | @lexeme before last n u x ts hnext hx _ ih =>
    have hpos := (Piece.next_covers hnext).pos
    rw [ih, ← List.getLast?_append, List.take_append_drop]
    have hne : u ≠ [] := List.ne_nil_of_length_pos (by omega)
    rw [List.getLast?_eq_some_getLast hne, Option.some_or]

namespace TokenStream

theorem readFrom_zero : readFrom d text 0 = (ofText d text).first :=
  readFrom_eq_first (m := text.length) (by omega)

theorem readFrom_stop (h : (ofText d text).tokens = xs ++ t :: zs) :
    readFrom d text t.stop = first ⟨zs, (ofText d text).ending⟩ := by
  obtain ⟨m, last, j, hpos, hm, hstop, hleads, hj, hscan⟩ := scan_leads h (Nat.le_refl _)
  rw [Nat.zero_add] at hstop
  have hne : text.take m ≠ [] := List.ne_nil_of_length_pos (by rw [List.length_take]; omega)
  have hlast : last = (text.take m).getLast? := by
    rw [hleads.last_eq, List.getLast?_eq_some_getLast hne, Option.some_or]
  rw [List.length_drop] at hj
  rw [readFrom_eq_first (m := j) (by omega), hstop, ← hlast]
  rw [hstop] at hscan
  exact congrArg first hscan

theorem readFrom_length : readFrom d text text.length = .ok (Token.atEnd text.length) := by
  rw [readFrom, Nat.sub_self, readWithin]

end TokenStream

/-! ## A cursor without tokens -/

structure Scanner where
  dialect : Dialect
  text : List Char
  /-- The place from which the next token is read. -/
  place : ℕ
  current : Token
  /-- The end of the token before the current one. -/
  previousStop : ℕ

namespace Scanner

def ofText (d : Dialect) (text : String) : Scanner := ⟨d, text.toList, 0, .unread, 0⟩

def peek (s : Scanner) : Except Fault Token :=
  (TokenStream.readFrom s.dialect s.text s.place).mapError Fault.ofLexical

def advance (s : Scanner) : Except Fault Scanner :=
  s.peek.map fun t =>
    { s with
      place := t.stop
      current := t
      previousStop := s.current.stop }

def steps : ℕ → Scanner → Except Fault Scanner
  | 0, s => .ok s
  | n + 1, s => s.steps n >>= advance

end Scanner

end SqlFront

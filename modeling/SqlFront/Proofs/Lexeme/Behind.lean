import SqlFront.Proofs.Lexeme.Closing
import SqlFront.Proofs.Lexeme.Last
import SqlFront.Proofs.Lexeme.Placed
import SqlFront.Proofs.Lexeme.Transparent

/-!
# Text behind a space

The tokens of a text up to a space are the same whatever follows the space, as long as no `BY`
follows it: `ORDER` and `GROUP` look for that word over blanks.
-/

set_option autoImplicit false

namespace SqlFront

variable {d : Dialect} {before last : Option Char} {u v v' a : List Char} {n k : ℕ} {t : Token}
  {ts xs zs : List Token}

/-! ## The tokens of a text in two parts -/

/-- The pieces of a text up to a place where it goes on with `a`, and the tokens among them. -/
inductive PiecesTo (d : Dialect) (a : List Char) (last : Option Char) (place : ℕ) :
    Option Char → ℕ → List Char → List Token → Prop
  | nil : PiecesTo d a last place last place a []
  | ignored {before : Option Char} {n k : ℕ} {rest : List Char} {ts : List Token} :
      Piece.next d before rest = .ok (.ignored k) →
      PiecesTo d a last place (rest.take k).getLast? (n + k) (rest.drop k) ts →
      PiecesTo d a last place before n rest ts
  | lexeme {before : Option Char} {n : ℕ} {rest : List Char} {x : Lexeme} {ts : List Token} :
      Piece.next d before rest = .ok (.lexeme x) →
      PiecesTo d a last place (rest.take x.length).getLast? (n + x.length) (rest.drop x.length) ts →
      PiecesTo d a last place before n rest (x.place n :: ts)

/-- The tokens up to a place and those behind it are the tokens of the text. -/
theorem PiecesTo.scan {place : ℕ} {rest : List Char} (h : PiecesTo d a last place before n rest ts)
    (hk : rest.length ≤ k) : ∃ j, a.length ≤ j ∧ TokenStream.scan d k before n rest =
      ⟨ts ++ (TokenStream.scan d j last place a).tokens, (TokenStream.scan d j last place a).ending⟩ := by
  induction h generalizing k with
  | nil => exact ⟨k, hk, rfl⟩
  | @ignored before n i rest ts hnext _ ih =>
    have hpos := (Piece.next_ignored hnext).1
    have hne : rest ≠ [] := by
      rintro rfl
      rw [Piece.next_nil] at hnext
      cases hnext
    obtain ⟨k, rfl⟩ := Nat.exists_eq_add_of_lt (Nat.lt_of_lt_of_le (List.length_pos_iff.2 hne) hk)
    obtain ⟨j, hj, hscan⟩ := @ih (0 + k) (by rw [List.length_drop]; omega)
    exact ⟨j, hj, by rw [TokenStream.scan, hnext]; exact hscan⟩
  | @lexeme before n rest x ts hnext _ ih =>
    have hcovers := Piece.next_covers hnext
    have hpos := hcovers.pos
    obtain ⟨k, rfl⟩ := Nat.exists_eq_add_of_lt (Nat.lt_of_lt_of_le hpos (hcovers.le.trans hk))
    obtain ⟨j, hj, hscan⟩ := @ih (0 + k) (by rw [List.length_drop]; omega)
    refine ⟨j, hj, ?_⟩
    rw [TokenStream.scan, hnext]
    simp only [hscan]
    rfl

/-- The tokens of the text are `ts`, then the one of the lexeme, and then those of what is behind. -/
def TokenStream.GoesOn (d : Dialect) (text : List Char) (ts : List Token) (place : ℕ) (x : Lexeme)
    (last : Option Char) (behind : List Char) : Prop :=
  ∃ n, behind.length ≤ n ∧ ofText d text =
    ⟨ts ++ x.place place :: (scan d n last (place + x.length) behind).tokens,
      (scan d n last (place + x.length) behind).ending⟩

/-- A lexeme at the place is the next token. -/
theorem PiecesTo.goesOn {place : ℕ} {text : List Char} {x : Lexeme}
    (h : PiecesTo d a last place none 0 text ts)
    (hnext : Piece.next d last a = .ok (.lexeme x)) :
    TokenStream.GoesOn d text ts place x (a.take x.length).getLast? (a.drop x.length) := by
  have hcovers := Piece.next_covers hnext
  obtain ⟨j, hj, hscan⟩ := h.scan (Nat.le_refl _)
  obtain ⟨j, rfl⟩ : ∃ k, j = k + 1 :=
    Nat.exists_eq_add_one.2 (Nat.lt_of_lt_of_le hcovers.pos (hcovers.le.trans hj))
  refine ⟨j, ?_, ?_⟩
  · have hpos := hcovers.pos
    rw [List.length_drop]
    omega
  · rw [TokenStream.ofText, hscan, TokenStream.scan, hnext]
    rfl

/-- Without a lexeme at the place the tokens end there. -/
theorem PiecesTo.fault {place : ℕ} {text : List Char} {cause : LexicalCause}
    (h : PiecesTo d a last place none 0 text ts)
    (ha : a ≠ []) (hnext : Piece.next d last a = .error ⟨0, cause⟩) :
    TokenStream.ofText d text = ⟨ts, .error ⟨place, cause⟩⟩ := by
  obtain ⟨j, hj, hscan⟩ := h.scan (Nat.le_refl _)
  obtain ⟨j, rfl⟩ : ∃ k, j = k + 1 :=
    Nat.exists_eq_add_one.2 (Nat.lt_of_lt_of_le (List.length_pos_iff.2 ha) hj)
  rw [TokenStream.ofText, hscan, TokenStream.scan, hnext]
  simp

theorem Leads.piecesTo (h : Leads d a before n u ts last) :
    PiecesTo d a last (n + u.length) before n (u ++ a) ts := by
  induction h with
  | nil => exact .nil
  | @ignored before last n k u ts hnext hk _ ih =>
    have hplace : n + k + (u.drop k).length = n + u.length := by
      rw [List.length_drop]
      omega
    rw [hplace] at ih
    refine .ignored hnext ?_
    rwa [List.take_append_of_le_length hk.le, List.drop_append_of_le_length hk.le]
  | @lexeme before last n u x ts hnext hx _ ih =>
    have hplace : n + x.length + (u.drop x.length).length = n + u.length := by
      rw [List.length_drop]
      omega
    rw [hplace] at ih
    refine .lexeme hnext ?_
    rwa [List.take_append_of_le_length hx, List.drop_append_of_le_length hx]

theorem Leads.scan (h : Leads d a before n u ts last) (hk : (u ++ a).length ≤ k) :
    ∃ j, a.length ≤ j ∧ TokenStream.scan d k before n (u ++ a) =
      ⟨ts ++ (TokenStream.scan d j last (n + u.length) a).tokens,
        (TokenStream.scan d j last (n + u.length) a).ending⟩ := h.piecesTo.scan hk

/-! ## What looks over the space -/

def NoBy (v : List Char) : Prop := ∀ word ∈ ["SIBLINGS", "BY"],
  Lexeme.startsWithWord word (v.dropWhile Character.isBlank) = false

theorem noBy_nil : NoBy [] := by
  intro word hword
  simp only [List.mem_cons, List.not_mem_nil, or_false] at hword
  rcases hword with rfl | rfl <;> decide

namespace Lexeme

theorem startsWithWord_space {word : String} (hmem : word ∈ ["SIBLINGS", "BY"]) (hv : NoBy v) :
    startsWithWord word ((u ++ ' ' :: v).dropWhile Character.isBlank) =
      startsWithWord word (u.dropWhile Character.isBlank) := by
  have hspace : ' '.toLower ∉ foldCase word := by
    simp only [List.mem_cons, List.not_mem_nil, or_false] at hmem
    rcases hmem with rfl | rfl <;> decide
  rw [List.dropWhile_append]
  cases hu : u.dropWhile Character.isBlank with
  | nil =>
    have hnone := noBy_nil word hmem
    rw [List.dropWhile_nil] at hnone
    rw [List.isEmpty_nil, if_pos rfl, List.dropWhile_cons_of_pos (by decide), hv word hmem, hnone]
  | cons c r => exact startsWithWord_stop (by decide) hspace

theorem startsWithBy_space (hv : NoBy v) : startsWithBy (u ++ ' ' :: v) = startsWithBy u := by
  have hspace : ' '.toLower ∉ foldCase "SIBLINGS" := by decide
  simp only [startsWithBy]
  rw [startsWithWord_space (by simp) hv]
  by_cases hs : startsWithWord "SIBLINGS" (u.dropWhile Character.isBlank) = true
  · -- The word is found in front of the space, and the look for `BY` goes on behind it.
    rw [if_pos hs, if_pos hs]
    have hlen := length_le_of_startsWithWord hs
    have hne : u.dropWhile Character.isBlank ≠ [] := by
      intro hnil
      rw [hnil] at hs
      exact absurd hs (by decide)
    rw [List.dropWhile_append, if_neg (by simpa using hne), List.drop_append_of_le_length hlen]
    exact startsWithWord_space (by simp) hv
  · rw [if_neg hs, if_neg hs]
    exact startsWithWord_space (by simp) hv

end Lexeme

theorem Leads.behindSpace (h : Leads d (' ' :: v) before 0 u ts last) (hv : NoBy v)
    (hv' : NoBy v') : Leads d (' ' :: v') before 0 u ts last := by
  have htext : (u ++ ' ' :: v).drop 0 = u ++ ' ' :: v := rfl
  have htext' : (u ++ ' ' :: v').drop 0 = u ++ ' ' :: v' := rfl
  obtain ⟨us, hleads, hus⟩ := h.spaced htext htext'
  have hstop := h.stop_le
  rw [Nat.zero_add] at hstop
  have hsame : List.Forall₂ Eq us ts := by
    refine List.forall₂_iff_get.2 ⟨hus.length_eq.symm, fun i hi hi' => ?_⟩
    have hrespelled := hus.get hi' hi
    have hle := hstop _ (List.get_mem ts ⟨i, hi'⟩)
    refine hrespelled.eq fun _ => ?_
    rw [List.drop_append_of_le_length hle, List.drop_append_of_le_length hle,
      Lexeme.startsWithBy_space hv, Lexeme.startsWithBy_space hv']
  rw [List.forall₂_eq_eq_eq] at hsame
  exact hsame ▸ hleads

theorem TokenStream.stop_ne (h : t ∈ (ofText d (u ++ ' ' :: v)).tokens) :
    t.stop ≠ u.length + 1 := by
  obtain ⟨k, before, x, hx, rfl⟩ := mem_scan h
  have hpos := (Piece.significant_covers hx).pos
  intro hstop
  have hlength : 0 + k + x.length = u.length + 1 := hstop
  have hle : k ≤ u.length := by omega
  rw [List.drop_append_of_le_length hle] at hx
  have hne := Piece.significant_ne hx
  rw [List.length_drop] at hne
  omega

end SqlFront

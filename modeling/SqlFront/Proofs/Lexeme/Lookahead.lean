import SqlFront.Proofs.Lexeme.Spaced
import SqlFront.Proofs.Lexeme.Written

/-!
# The words that look ahead

`ORDER` and `GROUP` are keywords where `BY` follows them over blanks, and identifiers elsewhere.
Only these words have a type that depends on the text behind them. How long the blanks are that
they look over makes no difference.
-/

set_option autoImplicit false

namespace SqlFront

variable {d : Dialect} {before : Option Char} {rest r w bs : List Char} {c : Char} {x : Lexeme}

/-! ## Their types -/

theorem upperCase_eq_of_sameName {a b : String} (h : sameName a b = true) :
    upperCase a = upperCase b := by
  have hupper : ∀ l : List Char, l.map Char.toUpper = (l.map Char.toLower).map Char.toUpper := by
    intro l
    rw [List.map_map]
    exact List.map_congr_left fun c _ => (Char.toUpper_toLower_eq_toUpper c).symm
  have hfold : a.toList.map Char.toLower = b.toList.map Char.toLower := sameName_iff.1 h
  unfold upperCase
  rw [hupper a.toList, hupper b.toList, hfold]

theorem keyword?_of_sameName {a b : String} (h : sameName a b = true) :
    d.keyword? a = d.keyword? b := by
  simp only [Dialect.keyword?, upperCase_eq_of_sameName h]

theorem keyword?_of_needsBy {word : String} (h : Lexeme.needsBy word = true) :
    ∃ k, d.keyword? word = some k := by
  rcases Bool.or_eq_true_iff.1 h with h | h
  · exact ⟨.ORDER, (keyword?_of_sameName h).trans (by cases d <;> decide +kernel)⟩
  · exact ⟨.GROUP, (keyword?_of_sameName h).trans (by cases d <;> decide +kernel)⟩

theorem wordType_eq_iff {word : String} (h : Lexeme.needsBy word = true) :
    Lexeme.wordType d word rest = Lexeme.wordType d word r ↔
      Lexeme.startsWithBy rest = Lexeme.startsWithBy r := by
  obtain ⟨k, hk⟩ := keyword?_of_needsBy (d := d) h
  unfold Lexeme.wordType
  rw [h, hk]
  cases Lexeme.startsWithBy rest <;> cases Lexeme.startsWithBy r <;> simp

theorem wordType_eq_of_not_needsBy {word : String} (h : Lexeme.needsBy word = false) :
    Lexeme.wordType d word rest = Lexeme.wordType d word r := by
  unfold Lexeme.wordType
  rw [h]
  rfl

theorem Character.eq_toLower_or_eq_toUpper (c : Char) :
    c = c.toLower ∨ c = c.toLower.toUpper := by
  by_cases hc : c.isUpper
  · right
    rw [Char.toUpper_toLower_eq_toUpper,
      Char.toUpper_eq_of_not_isLower (Char.not_isLower_of_isUpper hc)]
  · exact Or.inl (Char.toLower_eq_of_not_isUpper hc).symm

theorem Piece.next_lookahead (h : next d before rest = .ok (.lexeme x))
    (hchars : x.type ≠ .literal .chars) (hby : Lexeme.needsBy x.literals = true) :
    x.type = Lexeme.wordType d x.literals (rest.drop x.length) := by
  have hcovers := next_covers h
  have hliterals := hcovers.spelled hchars
  obtain ⟨c, rest, rfl⟩ : ∃ c r, rest = c :: r := by
    cases rest with
    | nil => exact absurd hcovers.le (Nat.not_le.2 hcovers.pos)
    | cons c r => exact ⟨c, r, rfl⟩
  have hfront : c.toLower = 'o' ∨ c.toLower = 'g' := by
    obtain ⟨n, hn⟩ := Nat.exists_eq_succ_of_ne_zero hcovers.pos.ne'
    have hfold : foldCase x.literals = c.toLower :: (rest.take n).map Char.toLower := by
      rw [hliterals, hn]
      simp [foldCase]
    rcases Bool.or_eq_true_iff.1 hby with hby | hby
    · exact Or.inl (List.cons.inj (hfold.symm.trans (sameName_iff.1 hby))).1
    · exact Or.inr (List.cons.inj (hfold.symm.trans (sameName_iff.1 hby))).1
  have hletter : c ∈ ['o', 'O', 'g', 'G'] := by
    have hcase := Character.eq_toLower_or_eq_toUpper c
    rcases hfront with hc | hc <;> rw [hc] at hcase <;>
      rcases hcase with rfl | rfl <;> decide
  have hbare : next d before (c :: rest) = .ok (.lexeme (Lexeme.bareWord d (c :: rest))) := by
    simp only [List.mem_cons, List.not_mem_nil, or_false] at hletter
    rcases hletter with rfl | rfl | rfl | rfl <;>
      (rw [next, Ignored.stretch_zero (by decide) (by decide)]; cases d <;> rfl)
  obtain rfl : Lexeme.bareWord d (c :: rest) = x := by
    rw [hbare] at h
    cases h
    rfl
  exact Lexeme.bareWord_type d (c :: rest)

/-! ## Over blanks -/

namespace Character

theorem not_isLetter_of_isBlank (h : isBlank c = true) : isLetter c = false :=
  Bool.eq_false_iff.2 fun hc => Bool.false_ne_true ((isBlank_of_isLetter hc).symm.trans h)

theorem not_isDigit_of_isBlank (h : isBlank c = true) : isDigit c = false :=
  Bool.eq_false_iff.2 fun hc => Bool.false_ne_true ((isBlank_of_isDigit hc).symm.trans h)

theorem ne_of_isBlank {x : Char} (h : isBlank c = true) (hx : isBlank x = false) : c ≠ x := by
  rintro rfl
  rw [h] at hx
  cases hx

theorem not_isWord_of_isBlank (h : isBlank c = true) : isWord c = false := by
  simp [isWord, not_isLetter_of_isBlank h, not_isDigit_of_isBlank h,
    ne_of_isBlank h (by decide : isBlank '_' = false),
    ne_of_isBlank h (by decide : isBlank '$' = false),
    ne_of_isBlank h (by decide : isBlank '#' = false)]

theorem toLower_of_not_isLetter (h : isLetter c = false) : c.toLower = c := by
  apply Char.toLower_eq_of_not_isUpper
  intro hc
  have hupper : 'A'.val ≤ c.val ∧ c.val ≤ 'Z'.val := by simpa [Char.isUpper] using hc
  rw [isLetter, decide_eq_true hupper.1, decide_eq_true hupper.2] at h
  simp at h

theorem toLower_of_isBlank (h : isBlank c = true) : c.toLower = c :=
  toLower_of_not_isLetter (not_isLetter_of_isBlank h)

end Character

inductive Blanked : List Char → List Char → Prop
  | same (r : List Char) : Blanked r r
  | behind (w bs r : List Char) : bs ≠ [] → (∀ c ∈ bs, Character.isBlank c = true) →
      Blanked (w ++ (bs ++ r)) (w ++ ' ' :: r)

namespace Blanked

theorem skip (h : Blanked rest r) :
    Blanked (rest.dropWhile Character.isBlank) (r.dropWhile Character.isBlank) := by
  have hspace : Character.isBlank ' ' = true := by decide
  cases h with
  | same => exact .same _
  | behind w bs r hne hbs =>
    induction w with
    | nil =>
      rw [List.nil_append, List.nil_append, List.dropWhile_append_of_pos hbs,
        List.dropWhile_cons_of_pos hspace]
      exact .same _
    | cons c w ih =>
      rw [List.cons_append, List.cons_append, List.dropWhile_cons, List.dropWhile_cons]
      split
      · exact ih
      · exact .behind (c :: w) bs r hne hbs

/-- A word is in front of both texts or of none, and behind it they still differ in blanks only. -/
theorem word {word : String} (hword : (foldCase word).any Character.isBlank = false)
    (h : Blanked rest r) : Lexeme.startsWithWord word rest = Lexeme.startsWithWord word r ∧
      (Lexeme.startsWithWord word rest = true →
        Blanked (rest.drop word.length) (r.drop word.length)) := by
  cases h with
  | same => exact ⟨rfl, fun _ => .same _⟩
  | behind w bs r hne hbs =>
    obtain ⟨c, bs, rfl⟩ := List.exists_cons_of_ne_nil hne
    rcases Nat.lt_or_ge w.length word.length with hlt | hle
    · -- The word would have a blank.
      have hnot : ∀ x s, Character.isBlank x = true →
          Lexeme.startsWithWord word (w ++ x :: s) = false := by
        intro x s hx
        have hmem : x ∈ (w ++ x :: s).take word.length := by
          obtain ⟨n, hn⟩ := Nat.exists_eq_add_of_lt hlt
          rw [hn, Nat.add_assoc, List.take_length_add_append]
          simp
        have hne : ((w ++ x :: s).take word.length).map Char.toLower ≠ foldCase word := by
          intro h
          have hfold : x ∈ foldCase word := by
            rw [← h]
            exact List.mem_map.2 ⟨x, hmem, Character.toLower_of_isBlank hx⟩
          exact List.any_eq_false.1 hword x hfold hx
        rw [Lexeme.startsWithWord, beq_eq_false_iff_ne.2 hne, Bool.false_and]
      rw [List.cons_append, hnot c _ (hbs c (by simp)), hnot ' ' _ (by decide)]
      exact ⟨rfl, fun h => by cases h⟩
    · constructor
      · unfold Lexeme.startsWithWord
        rw [take_spaced (a := c :: bs ++ r) hle]
        have hbehind : Character.isWord (charAt (w ++ (c :: bs ++ r)) word.length) =
            Character.isWord (charAt (w ++ ' ' :: r) word.length) := by
          rcases charAt_spaced (a := c :: bs ++ r) (v := r) hle with heq | ⟨hlen, hspace⟩
          · rw [heq]
          · rw [hspace, hlen, List.cons_append, charAt_behind, Character.not_isWord_of_isBlank (hbs c (by simp))]
            rfl
        rw [hbehind]
      · rw [List.drop_append_of_le_length hle, List.drop_append_of_le_length hle]
        exact fun _ => .behind _ _ _ hne hbs

/-- How long the blanks are makes no difference to the look for `BY`. -/
theorem startsWithBy (h : Blanked rest r) : Lexeme.startsWithBy rest = Lexeme.startsWithBy r := by
  have hsiblings : (foldCase "SIBLINGS").any Character.isBlank = false := by decide
  have hby : (foldCase "BY").any Character.isBlank = false := by decide
  obtain ⟨hfront, hbehind⟩ := h.skip.word hsiblings
  simp only [Lexeme.startsWithBy]
  rw [← hfront]
  split
  · next hfound => exact ((hbehind hfound).skip.word hby).1
  · exact (h.skip.word hby).1

end Blanked

end SqlFront

import SqlFront.Proofs.Lexeme.Placed
import SqlFront.Proofs.Lexeme.Spaced

/-!
# The longest symbol

Where a text goes on with a character of symbols, the symbol in front is the longest one that the
text goes on with. Every such character is a symbol alone, so that there is one, and a symbol that
begins with such a character has no others, so that the run of these characters holds it.
-/

set_option autoImplicit false

namespace SqlFront

variable {s s' : Symbol} {c : Char} {rest : List Char} {n : ℕ}

namespace Symbol

/-! ## The table of spellings -/

theorem mem_all (s : Symbol) : s ∈ all := by cases s <;> decide

theorem spelling_injective : Function.Injective spelling := fun a b h =>
  List.inj_on_of_nodup_map (by decide : (all.map spelling).Nodup) a.mem_all b.mem_all h

theorem spelling_ne_nil (s : Symbol) : s.spelling.toList ≠ [] := by cases s <;> decide

theorem ofSpelling?_iff {text : String} : ofSpelling? text = some s ↔ s.spelling = text := by
  refine ⟨Lexeme.ofSpelling?_spelling, ?_⟩
  rintro rfl
  cases s <;> decide

theorem exists_single (h : Character.isSymbol c = true) :
    ∃ s : Symbol, s.spelling.toList = [c] := by
  have hall : (Character.symbolCharacters.all fun c =>
      (ofSpelling? (String.ofList [c])).isSome) = true := by decide
  have hc : c ∈ Character.symbolCharacters := by simpa [Character.isSymbol] using h
  obtain ⟨s, hs⟩ := Option.isSome_iff_exists.1 (List.all_eq_true.1 hall c hc)
  exact ⟨s, by rw [ofSpelling?_iff.1 hs, String.toList_ofList]⟩

theorem isSymbol_of_front (h : s.spelling.toList <+: rest)
    (hrest : Character.isSymbol (charAt rest 0) = true) :
    ∀ c ∈ s.spelling.toList, Character.isSymbol c = true := by
  obtain ⟨more, rfl⟩ := h
  have hfront : Character.isSymbol (charAt s.spelling.toList 0) = true := by
    obtain ⟨c, cs, hcs⟩ := List.exists_cons_of_ne_nil s.spelling_ne_nil
    rw [hcs] at hrest ⊢
    exact hrest
  clear hrest
  rw [← List.all_eq_true]
  revert hfront
  cases s <;> decide

/-! ## The longest one in front -/

structure LongestOf (s : Symbol) (rest : List Char) : Prop where
  front : s.spelling.toList <+: rest
  longest : ∀ s' : Symbol, s'.spelling.toList <+: rest → s'.spelling.length ≤ s.spelling.length

theorem eq_of_front (h : s.spelling.toList <+: rest) (h' : s'.spelling.toList <+: rest)
    (hlength : s'.spelling.length = s.spelling.length) : s' = s := by
  apply spelling_injective
  rw [← String.length_toList, ← String.length_toList] at hlength
  exact String.toList_inj.1 ((List.prefix_of_prefix_length_le h' h hlength.le).eq_of_length hlength)

theorem LongestOf.lt (h : s.LongestOf rest) (hfront : s'.spelling.toList <+: rest)
    (hne : s' ≠ s) : s'.spelling.length < s.spelling.length :=
  Nat.lt_of_le_of_ne (h.longest s' hfront) fun heq => hne (eq_of_front h.front hfront heq)

/-- Of the finitely many symbols in front one is the longest, and there is one at all. -/
theorem exists_longestOf (h : Character.isSymbol (charAt rest 0) = true) :
    ∃ s : Symbol, s.LongestOf rest := by
  classical
  obtain ⟨c, tail, rfl⟩ : ∃ c tail, rest = c :: tail := by
    apply List.exists_cons_of_ne_nil
    rintro rfl
    exact absurd h (by decide)
  obtain ⟨single, hsingle⟩ := exists_single (c := c) h
  let front := all.toFinset.filter fun s => s.spelling.toList <+: c :: tail
  have hmem : ∀ s, s ∈ front ↔ s.spelling.toList <+: c :: tail := fun s => by
    simp [front, s.mem_all]
  have hne : front.Nonempty := by
    refine ⟨single, (hmem single).2 ?_⟩
    rw [hsingle]
    exact List.prefix_append [c] tail
  obtain ⟨s, hs, hlongest⟩ := front.exists_max_image (fun s => s.spelling.length) hne
  exact ⟨s, (hmem s).1 hs, fun s' hs' => hlongest s' ((hmem s').2 hs')⟩

end Symbol

namespace Lexeme

theorem longestSymbol?_eq (h : s.LongestOf rest) (hlow : s.spelling.length ≤ n)
    (hhigh : n ≤ rest.length) : longestSymbol? rest n = some (s, s.spelling.length) := by
  induction n with
  | zero =>
    have hzero := Nat.le_zero.1 hlow
    rw [← String.length_toList] at hzero
    exact (s.spelling_ne_nil (List.eq_nil_of_length_eq_zero hzero)).elim
  | succ n ih =>
    rw [longestSymbol?]
    cases hs : Symbol.ofSpelling? (String.ofList (rest.take (n + 1))) with
    | some s' =>
      -- What is found here is in front, and as long as the longest symbol can be.
      have hspelling := Symbol.ofSpelling?_iff.1 hs
      have hlength : s'.spelling.length = n + 1 := by
        rw [hspelling, String.length_ofList, List.length_take_of_le hhigh]
      have hfront : s'.spelling.toList <+: rest := by
        rw [hspelling, String.toList_ofList]
        exact List.take_prefix _ _
      have hsame : s'.spelling.length = s.spelling.length :=
        Nat.le_antisymm (h.longest s' hfront) (hlow.trans hlength.ge)
      obtain rfl := Symbol.eq_of_front h.front hfront hsame
      rw [hlength]
    | none =>
      refine ih (Nat.le_of_lt_succ (Nat.lt_of_le_of_ne hlow fun heq : _ = n + 1 => ?_)) (by omega)
      have htake : s.spelling = String.ofList (rest.take (n + 1)) := by
        rw [← heq, ← String.toList_inj, String.toList_ofList, ← String.length_toList]
        exact List.prefix_iff_eq_take.1 h.front
      rw [Symbol.ofSpelling?_iff.2 htake] at hs
      cases hs

/-- The search down from the whole run of characters of symbols finds the longest one, which the
run holds. -/
theorem longestSymbol?_run (h : s.LongestOf rest)
    (hrest : Character.isSymbol (charAt rest 0) = true) :
    longestSymbol? rest (rest.takeWhile Character.isSymbol).length =
      some (s, s.spelling.length) := by
  obtain ⟨more, hmore⟩ := h.front
  refine longestSymbol?_eq h ?_ (List.takeWhile_prefix _).length_le
  rw [← hmore, List.takeWhile_append_of_pos (Symbol.isSymbol_of_front h.front hrest),
    List.length_append, String.length_toList]
  exact Nat.le_add_right _ _

theorem symbol_eq (h : s.LongestOf rest) (hrest : Character.isSymbol (charAt rest 0) = true) :
    symbol rest = .ok ⟨.symbol s, s.spelling, s.spelling.length⟩ := by
  have htake : String.ofList (rest.take s.spelling.length) = s.spelling := by
    rw [← String.toList_inj, String.toList_ofList, ← String.length_toList]
    exact (List.prefix_iff_eq_take.1 h.front).symm
  simp only [symbol, longestSymbol?_run h hrest, htake]

end Lexeme

/-- At a character of symbols the symbol in front is read: the longest one, which is the only one
so long, with its spelling as literals and the place behind the spelling as end. The search for it
begins with the whole run of such characters. -/
theorem symbol_maximal {text : List Char} {start : ℕ}
    (h : Character.isSymbol (charAt text start) = true) :
    ∃ s x, Lexeme.symbol (text.drop start) = .ok x ∧
      x.place start = ⟨.symbol s, s.spelling, start, start + s.spelling.length⟩ ∧
      s ∈ Symbol.all ∧ s.spelling.toList <+: text.drop start ∧
      (∀ s' ∈ Symbol.all, s'.spelling.toList <+: text.drop start → s' ≠ s →
        s'.spelling.length < s.spelling.length) ∧
      Lexeme.longestSymbol? (text.drop start)
        ((text.drop start).takeWhile Character.isSymbol).length = some (s, s.spelling.length) := by
  have hrest : Character.isSymbol (charAt (text.drop start) 0) = true := by rwa [charAt_drop]
  obtain ⟨s, hs⟩ := Symbol.exists_longestOf hrest
  exact ⟨s, _, Lexeme.symbol_eq hs hrest, rfl, s.mem_all, hs.front,
    fun s' _ hfront hne => hs.lt hfront hne, Lexeme.longestSymbol?_run hs hrest⟩

/-- Four characters of symbols stand in a row, of which three are one symbol. -/
theorem symbol_maximal_run :
    Character.isSymbol (charAt "a<=>-b".toList 1) = true ∧
    Lexeme.symbol ("a<=>-b".toList.drop 1) = .ok ⟨.symbol .nullSafeEqual, "<=>", 3⟩ ∧
    Symbol.lessEqual.spelling.toList <+: "a<=>-b".toList.drop 1 ∧
    Symbol.lessEqual.spelling.length < Symbol.nullSafeEqual.spelling.length := by
  have h : Character.isSymbol (charAt "a<=>-b".toList 1) = true := by decide
  have hread : Lexeme.symbol ("a<=>-b".toList.drop 1) =
      .ok ⟨.symbol .nullSafeEqual, "<=>", 3⟩ := by decide
  have hfront : Symbol.lessEqual.spelling.toList <+: "a<=>-b".toList.drop 1 := by decide
  obtain ⟨s, x, hx, hplace, -, -, hlongest, -⟩ := symbol_maximal h
  obtain rfl := Except.ok.inj (hread.symm.trans hx)
  obtain rfl : .nullSafeEqual = s := TokenType.symbol.inj (Token.mk.inj hplace).1
  exact ⟨h, hread, hfront, hlongest _ (Symbol.mem_all _) hfront (by decide)⟩

end SqlFront

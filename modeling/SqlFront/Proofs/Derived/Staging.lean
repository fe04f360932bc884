import Mathlib
import SqlFront.Proofs.Lexeme.Written
import SqlFront.Statement.Derived

/-!
# The texts of an average

The count and the sum that an average is computed from are staged as texts, with the argument of
the average but without its spaces. They are the calls that they are meant to be exactly when the
argument has the same words without its spaces.
-/

set_option autoImplicit false

namespace SqlFront

open Derived

variable {d : Dialect} {before : Option Char} {n : ℕ} {ws vs : List (TokenType × String)}

def callWords (function : Keyword) (ws : List (TokenType × String)) (alias_ : String) :
    List (TokenType × String) :=
  (.keyword function, function.spelling) :: (.symbol .leftParen, "(") ::
    (ws ++ [(.symbol .rightParen, ")"), (.keyword .AS, "AS"), (.literal .identifier, alias_)])

def partText (function : Aggregate) (argument alias_ : String) : String :=
  staged (Aggregation.expression ⟨function, "(" ++ argument ++ ")", some alias_, []⟩) alias_

/-! ## Aliases -/

structure IsAlias (d : Dialect) (alias_ : String) : Prop where
  bare : IsBare alias_.toList
  keyword : d.keyword? alias_ = none

theorem IsAlias.wordType {alias_ : String} (h : IsAlias d alias_) (rest : List Char) :
    Lexeme.wordType d alias_ rest = .literal .identifier := by
  unfold Lexeme.wordType
  split
  · rfl
  · rw [h.keyword]

theorem isDigit_of_mem_toString {c : Char} (h : c ∈ (toString n).toList) :
    Character.isDigit c = true := by
  rw [Nat.toString_eq_repr, Nat.toList_repr] at h
  have hdigit := Nat.isDigit_of_mem_toDigits (by decide) (by decide) h
  simpa [Char.isDigit, Character.isDigit] using hdigit

def aliasFronts : List String := ["AVG_DERIVED_", "ORDER_BY_DERIVED_", "GROUP_BY_DERIVED_"]

theorem Keyword.not_alias (k : Keyword) : ∀ front ∈ aliasFronts,
    ¬front.toList <+: k.spelling.toList := by
  cases k <;> decide

theorem isAlias_of_front {front stem : String} (hfront : front ∈ aliasFronts)
    (hstem : stem.toList.all Character.isWord = true) : IsAlias d (front ++ stem ++ toString n) := by
  have hbare : ∀ front ∈ aliasFronts, IsBare front.toList ∧
      front.toList.map Char.toUpper = front.toList := by
    simp only [aliasFronts, List.forall_mem_cons, List.not_mem_nil, false_imp_iff, implies_true,
      and_true]
    refine ⟨⟨⟨?_, ?_, ?_⟩, ?_⟩, ⟨⟨?_, ?_, ?_⟩, ?_⟩, ⟨⟨?_, ?_, ?_⟩, ?_⟩⟩ <;> decide +kernel
  obtain ⟨hbare, hupper⟩ := hbare front hfront
  have hlen := hbare.long
  have hsplit : (front ++ stem ++ toString n).toList =
      front.toList ++ (stem.toList ++ (toString n).toList) := by
    rw [String.toList_append, String.toList_append, List.append_assoc]
  constructor
  · rw [hsplit]
    constructor
    · apply List.all_eq_true.2
      intro c hc
      rcases List.mem_append.1 hc with hc | hc
      · exact hbare.isWord c hc
      rcases List.mem_append.1 hc with hc | hc
      · exact List.all_eq_true.1 hstem c hc
      · simp [Character.isWord, isDigit_of_mem_toString hc]
    · have hletter := hbare.letter
      unfold charAt at hletter ⊢
      rw [List.getD_append _ _ _ _ (by omega)]
      exact hletter
    · rw [List.length_append]
      omega
  · apply List.find?_eq_none.2
    intro k _ heq
    apply k.not_alias front hfront
    rw [beq_iff_eq] at heq
    have hspelling : k.spelling.toList = _ := (congrArg String.toList heq).trans String.toList_ofList
    rw [hspelling, hsplit, List.map_append, hupper]
    exact List.prefix_append _ _

theorem isAlias_aliasOf (origin : Origin) : IsAlias d (aliasOf origin n) := by
  obtain ⟨front, hfront, stem, hstem, halias⟩ : ∃ front ∈ aliasFronts, ∃ stem : String,
      stem.toList.all Character.isWord = true ∧ aliasOf origin n = front ++ stem ++ toString n := by
    cases origin with
    | averageCount => exact ⟨"AVG_DERIVED_", by decide, "COUNT_", by decide, rfl⟩
    | averageSum => exact ⟨"AVG_DERIVED_", by decide, "SUM_", by decide, rfl⟩
    | orderBy => exact ⟨"ORDER_BY_DERIVED_", by decide, "", rfl, by rw [String.append_empty]; rfl⟩
    | groupBy => exact ⟨"GROUP_BY_DERIVED_", by decide, "", rfl, by rw [String.append_empty]; rfl⟩
  rw [halias]
  exact isAlias_of_front hfront hstem

theorem averageAliases_ne (n : ℕ) : aliasOf .averageCount n ≠ aliasOf .averageSum n := by
  have hcount : (aliasOf .averageCount n).length = 18 + (toString n).length :=
    String.length_append _ _
  have hsum : (aliasOf .averageSum n).length = 16 + (toString n).length := String.length_append _ _
  intro heq
  rw [heq, hsum] at hcount
  generalize (toString n).length = m at hcount
  omega

/-! ## The words of a part -/

def behindArgument (alias_ : String) : List Char :=
  ' ' :: 'A' :: 'S' :: ' ' :: (alias_.toList ++ [' '])

theorem partText_toList (function : Aggregate) (argument alias_ : String) :
    (partText function argument alias_).toList = function.spelling.toList ++
      '(' :: ((withoutSpaces argument).toList ++ ')' :: behindArgument alias_) := by
  have hspelling : function.spelling.toList.filter (· != ' ') = function.spelling.toList := by
    cases function <;> decide
  have has : " AS ".toList = [' ', 'A', 'S', ' '] := by decide
  have hleft : "(".toList = ['('] := by decide
  have hright : ")".toList = [')'] := by decide
  have hspace : " ".toList = [' '] := by decide
  simp [partText, staged, Aggregation.expression, withoutSpaces, behindArgument, hspelling, has,
    hleft, hright, hspace]

theorem behindArgument_plain {alias_ : String} (h : IsAlias d alias_) :
    IsPlain (behindArgument alias_) := by
  have hword : ∀ c, Character.isWord c = true →
      c ∉ ['\'', '"', '\x60', ']', '/', '\n', endMark] := by
    intro c hc hmem
    simp only [List.mem_cons, List.not_mem_nil, or_false] at hmem
    rcases hmem with rfl | rfl | rfl | rfl | rfl | rfl | rfl <;> revert hc <;> decide
  intro c hc
  simp only [behindArgument, List.mem_cons, List.mem_append, List.not_mem_nil, or_false] at hc
  rcases hc with rfl | rfl | rfl | rfl | hc | rfl
  · decide
  · decide
  · decide
  · decide
  · exact hword c (h.bare.isWord c hc)
  · decide

theorem Spells.bare_iff {w rest : List Char} (hw : IsBare w)
    (hrest : Character.isWord (charAt rest 0) = false) : Spells d before (w ++ rest) ws ↔
      ∃ us, ws = (Lexeme.wordType d (String.ofList w) rest, String.ofList w) :: us ∧
        Spells d w.getLast? rest us := by
  rw [lexeme_iff (Piece.next_bare hw hrest)]
  simp only [List.take_left, List.drop_left]

theorem spells_behindArgument {alias_ : String} (h : IsAlias d alias_) :
    Spells d before (behindArgument alias_) vs ↔
      vs = [(.keyword .AS, "AS"), (.literal .identifier, alias_)] := by
  have has : IsBare ['A', 'S'] := ⟨by decide, by decide, by decide⟩
  have hkeyword : ∀ rest, Lexeme.wordType d (String.ofList ['A', 'S']) rest = .keyword .AS := by
    intro rest
    have hby : Lexeme.needsBy (String.ofList ['A', 'S']) = false := by decide
    have hk : d.keyword? (String.ofList ['A', 'S']) = some .AS := by
      cases d <;> decide +kernel
    rw [Lexeme.wordType, hby, hk]
    rfl
  have hfirst : Character.isBlank (charAt (alias_.toList ++ [' ']) 0) = false := by
    have hlen := h.bare.long
    have hletter := h.bare.letter
    unfold charAt at hletter ⊢
    rw [List.getD_append _ _ _ _ (by omega)]
    exact Character.isBlank_of_isLetter hletter
  have hlast : ∀ {b : Option Char} {us}, Spells d b [' '] us ↔ us = [] := by
    intro b us
    rw [Spells.space_iff (by decide), Spells.nil_iff]
  unfold behindArgument
  have hsplit : 'A' :: 'S' :: ' ' :: (alias_.toList ++ [' ']) =
      ['A', 'S'] ++ ' ' :: (alias_.toList ++ [' ']) := rfl
  have hcall : ∀ {b : Option Char} {us}, Spells d b (alias_.toList ++ [' ']) us ↔
      us = [(.literal .identifier, alias_)] := by
    intro b us
    rw [Spells.bare_iff h.bare (by decide), String.ofList_toList, h.wordType]
    simp only [hlast]
    constructor
    · rintro ⟨_, rfl, rfl⟩
      rfl
    · rintro rfl
      exact ⟨_, rfl, rfl⟩
  rw [Spells.space_iff rfl, hsplit, Spells.bare_iff has rfl, hkeyword]
  simp only [Spells.space_iff hfirst, hcall]
  constructor
  · rintro ⟨_, rfl, rfl⟩
    rfl
  · rintro rfl
    exact ⟨_, rfl, rfl⟩

theorem spells_closedArgument {alias_ : String} (h : IsAlias d alias_) :
    Spells d before (')' :: behindArgument alias_) vs ↔
      vs = [(.symbol .rightParen, ")"), (.keyword .AS, "AS"), (.literal .identifier, alias_)] := by
  rw [Spells.rightParen_iff]
  simp only [spells_behindArgument h]
  constructor
  · rintro ⟨_, rfl, rfl⟩
    rfl
  · rintro rfl
    exact ⟨_, rfl, rfl⟩

theorem spells_partText {function : Aggregate} {k : Keyword} {argument alias_ : String}
    (hk : k = .COUNT ∧ function = .count ∨ k = .SUM ∧ function = .sum) :
    HasWords d (partText function argument alias_).toList vs ↔
      ∃ us, vs = (.keyword k, k.spelling) :: (.symbol .leftParen, "(") :: us ∧
        Spells d none ((withoutSpaces argument).toList ++ ')' :: behindArgument alias_) us := by
  have hbare : IsBare function.spelling.toList := by
    rcases hk with ⟨-, rfl⟩ | ⟨-, rfl⟩ <;>
      exact ⟨by decide, by decide, by decide⟩
  have hword : ∀ rest, (Lexeme.wordType d (String.ofList function.spelling.toList) rest,
      String.ofList function.spelling.toList) = (.keyword k, k.spelling) := by
    intro rest
    rcases hk with ⟨rfl, rfl⟩ | ⟨rfl, rfl⟩ <;> cases d <;> rfl
  have hbefore : (some '(').any (Piece.beginsWord d.lexis) =
      (none : Option Char).any (Piece.beginsWord d.lexis) := by
    cases d <;> decide
  rw [hasWords_iff, partText_toList, Spells.bare_iff hbare rfl, hword]
  simp only [Spells.leftParen_iff, Spells.before_iff hbefore]
  constructor
  · rintro ⟨_, rfl, us, rfl, hus⟩
    exact ⟨us, rfl, hus⟩
  · rintro ⟨us, rfl, hus⟩
    exact ⟨_, rfl, us, rfl, hus⟩

/-- Both parts of an average have the words of their calls exactly when its argument without spaces
has its words, alone and in front of the closing parenthesis. -/
theorem partTexts_iff (d : Dialect) (argument : String) (n : ℕ)
    (ws : List (TokenType × String)) :
    (HasWords d (partText .count argument (aliasOf .averageCount n)).toList
        (callWords .COUNT ws (aliasOf .averageCount n)) ∧
      HasWords d (partText .sum argument (aliasOf .averageSum n)).toList
        (callWords .SUM ws (aliasOf .averageSum n))) ↔
    HasWords d (withoutSpaces argument).toList ws ∧
      HasWords d ((withoutSpaces argument).toList ++ [')'])
        (ws ++ [(.symbol .rightParen, ")")]) := by
  have hcount : IsAlias d (aliasOf .averageCount n) := isAlias_aliasOf _
  have hsum : IsAlias d (aliasOf .averageSum n) := isAlias_aliasOf _
  have hempty : IsPlain [] := fun c hc => by simp at hc
  rw [spells_partText (Or.inl ⟨rfl, rfl⟩), spells_partText (Or.inr ⟨rfl, rfl⟩), hasWords_iff,
    hasWords_iff]
  generalize (withoutSpaces argument).toList = body
  rcases Spells.paren none body with ⟨last, hlast⟩ | hgone
  · have hplain : ∀ ws', Spells d none (body ++ [')']) ws' ↔ _ := hlast [] hempty
    simp only [hplain, hlast _ (behindArgument_plain hcount), hlast _ (behindArgument_plain hsum),
      spells_closedArgument hcount, spells_closedArgument hsum, Spells.rightParen_iff,
      Spells.nil_iff]
    constructor
    · rintro ⟨⟨us, hcall, us₁, _, hus, rfl, rfl⟩, -⟩
      have heq : us₁ = ws := by
        simp only [callWords, List.cons.injEq, true_and] at hcall
        exact (List.append_inj_left' hcall rfl).symm
      subst heq
      exact ⟨hus, us₁, _, hus, ⟨_, rfl, rfl⟩, rfl⟩
    · rintro ⟨hws, -⟩
      exact ⟨⟨_, rfl, ws, _, hws, rfl, rfl⟩, ⟨_, rfl, ws, _, hws, rfl, rfl⟩⟩
  · -- A comment goes on over the alias, which cannot be the last word of both texts then.
    have hplain : ∀ ws', Spells d none (body ++ [')']) ws' ↔ _ := hgone [] hempty
    simp only [hplain, hgone _ (behindArgument_plain hcount), hgone _ (behindArgument_plain hsum)]
    constructor
    · rintro ⟨⟨us, hcall, hus⟩, ⟨vs, hcall', hvs⟩⟩
      obtain rfl := hus.unique hvs
      simp only [callWords, List.cons.injEq, true_and] at hcall hcall'
      have heq := List.append_cancel_left (hcall.trans hcall'.symm)
      simp only [List.cons.injEq, Prod.mk.injEq, true_and, and_true] at heq
      exact (averageAliases_ne n heq).elim
    · rintro ⟨hws, hws'⟩
      have hlen := congrArg List.length (hws.unique hws')
      simp at hlen

/-! ## Different aliases

The aliases of the four kinds begin differently, and those of one kind end with different numbers. -/

theorem foldCase_append (a b : String) : foldCase (a ++ b) = foldCase a ++ foldCase b := by
  rw [foldCase, String.toList_append, List.map_append]
  rfl

theorem foldCase_digits (n : ℕ) : foldCase (toString n) = (toString n).toList := by
  have hlower : ∀ c ∈ (toString n).toList, c.toLower = c := by
    intro c hc
    apply Char.toLower_eq_of_not_isUpper
    intro hupper
    have hdigit := isDigit_of_mem_toString hc
    simp only [Character.isDigit, Char.isUpper, Bool.and_eq_true, decide_eq_true_eq] at hdigit hupper
    exact absurd (UInt32.le_trans hupper.1 hdigit.2) (by decide)
  exact (List.map_congr_left hlower).trans (List.map_id _)

namespace Derived

variable {a b : Origin} {m n : ℕ}

def Origin.front : Origin → String
  | .averageCount => "AVG_DERIVED_COUNT_"
  | .averageSum => "AVG_DERIVED_SUM_"
  | .orderBy => "ORDER_BY_DERIVED_"
  | .groupBy => "GROUP_BY_DERIVED_"

theorem aliasOf_eq (a : Origin) (n : ℕ) : aliasOf a n = a.front ++ toString n := by
  cases a <;> rfl

def Origin.mark (a : Origin) : List Char := (foldCase a.front).take 13

theorem Origin.length_front (a : Origin) : 13 ≤ (foldCase a.front).length := by
  cases a <;> decide +kernel

theorem Origin.mark_injective : Function.Injective Origin.mark := by
  intro a b h
  cases a <;> cases b <;> first | rfl | exact absurd h (by decide +kernel)

theorem sameName_aliasOf (h : sameName (aliasOf a m) (aliasOf b n) = true) : a = b ∧ m = n := by
  rw [sameName_iff, aliasOf_eq, aliasOf_eq, foldCase_append, foldCase_append, foldCase_digits,
    foldCase_digits] at h
  have hmark : a.mark = b.mark := by
    have hfront := congrArg (List.take 13) h
    rwa [List.take_append_of_le_length a.length_front,
      List.take_append_of_le_length b.length_front] at hfront
  obtain rfl := Origin.mark_injective hmark
  exact ⟨rfl, Nat.repr_injective (String.toList_inj.1 (List.append_cancel_left h))⟩

end Derived

end SqlFront

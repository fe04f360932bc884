import SqlFront.Proofs.Lexeme.Words

/-!
# Text in front of a closing parenthesis

No lexeme but the parenthesis itself has a closing parenthesis. What stands in front of one is cut
as if the text ended there, unless a comment of one line is open and goes on over it.
-/

set_option autoImplicit false

namespace SqlFront

variable {d : Dialect} {before : Option Char} {u r : List Char} {n : ℕ}

def IsPlain (r : List Char) : Prop :=
  ∀ c ∈ r, c ∉ ['\'', '"', '\x60', ']', '/', '\n', endMark]

theorem charAt_stop {α : Type} {x : Char} (g : Char → α) (hg : g x = g endMark)
    (hn : n ≤ u.length) : g (charAt (u ++ x :: r) n) = g (charAt u n) := by
  unfold charAt
  by_cases hlt : n < u.length
  · rw [List.getD_append _ _ _ _ hlt]
  · obtain rfl : n = u.length := by omega
    rw [List.getD_append_right _ _ _ _ (Nat.le_refl _), List.getD_eq_default _ _ (Nat.le_refl _),
      Nat.sub_self]
    exact hg

theorem charAt_paren {c : Char} (hc : c ≠ ')') (hm : c ≠ endMark) (hn : n ≤ u.length) :
    charAt (u ++ ')' :: r) n = c ↔ charAt u n = c := by
  refine iff_of_eq (charAt_stop (fun x => x = c) ?_ hn)
  exact propext ⟨fun h => (hc h.symm).elim, fun h => (hm h.symm).elim⟩

theorem drop_paren (hn : n ≤ u.length) : (u ++ ')' :: r).drop n = u.drop n ++ ')' :: r :=
  List.drop_append_of_le_length hn

theorem take_paren (hn : n ≤ u.length) : (u ++ ')' :: r).take n = u.take n :=
  List.take_append_of_le_length hn

theorem takeWhile_paren {p : Char → Bool} (hp : p ')' = false) :
    (u ++ ')' :: r).takeWhile p = u.takeWhile p := by
  induction u with
  | nil => simp [hp]
  | cons c u ih => simp [List.takeWhile_cons, ih]

theorem dropWhile_paren {p : Char → Bool} (hp : p ')' = false) :
    (u ++ ')' :: r).dropWhile p = u.dropWhile p ++ ')' :: r := by
  induction u with
  | nil => simp [hp]
  | cons c u ih =>
    rw [List.cons_append, List.dropWhile_cons, List.dropWhile_cons, ih]
    split <;> rfl

/-! ## Lexemes -/

namespace Lexeme

theorem ofFront_paren {kind : Literal} (hn : n ≤ u.length) :
    ofFront kind n (u ++ ')' :: r) = ofFront kind n u := by
  rw [ofFront, take_paren hn, ofFront]

theorem variableName_paren (h : charAt u 0 = '@') :
    variableName (u ++ ')' :: r) = variableName u := by
  have hpos : 0 < u.length := lt_length_of_charAt (by rw [h]; decide)
  have hle := (variableName_covers h).le
  simp only [variableName, ofFront] at hle
  simp only [variableName, charAt_paren (c := '@') (by decide) (by decide) hpos]
  by_cases hsecond : charAt u 1 = '@'
  · have hlen : 1 < u.length := lt_length_of_charAt (by rw [hsecond]; decide)
    simp only [hsecond, if_true] at hle ⊢
    rw [drop_paren hlen, takeWhile_paren (by decide), ofFront_paren hle]
  · simp only [hsecond, if_false] at hle ⊢
    rw [drop_paren hpos, takeWhile_paren (by decide), ofFront_paren hle]

theorem hexNumber_paren (h : 1 < u.length) : hexNumber (u ++ ')' :: r) = hexNumber u := by
  have hle := (hexNumber_covers h).le
  simp only [hexNumber, ofFront] at hle
  simp only [hexNumber, charAt_paren (c := '-') (by decide) (by decide) h]
  by_cases hminus : charAt u 2 = '-'
  · have hlen : 2 < u.length := lt_length_of_charAt (by rw [hminus]; decide)
    simp only [hminus, if_true] at hle ⊢
    rw [drop_paren hlen, takeWhile_paren (by decide), ofFront_paren hle]
  · simp only [hminus, if_false] at hle ⊢
    rw [drop_paren h, takeWhile_paren (by decide), ofFront_paren hle]

/-! ## Words -/

theorem length_foldCase (word : String) : (foldCase word).length = word.length := by
  rw [foldCase, List.length_map, String.length_toList]

theorem startsWithWord_stop {word : String} {x : Char} (hx : Character.isWord x = false)
    (hw : x.toLower ∉ foldCase word) :
    startsWithWord word (u ++ x :: r) = startsWithWord word u := by
  unfold startsWithWord
  by_cases hn : word.length ≤ u.length
  · rw [List.take_append_of_le_length hn, charAt_stop Character.isWord hx hn]
  · have hlong : ((u ++ x :: r).take word.length).map Char.toLower ≠ foldCase word := by
      intro heq
      apply hw
      rw [← heq, List.take_append]
      obtain ⟨m, hm⟩ : ∃ m, word.length - u.length = m + 1 := ⟨word.length - u.length - 1, by omega⟩
      rw [hm, List.take_succ_cons]
      simp
    have hshort : (u.take word.length).map Char.toLower ≠ foldCase word := by
      intro heq
      have hlen := congrArg List.length heq
      rw [length_foldCase, List.length_map, List.length_take] at hlen
      omega
    rw [beq_eq_false_iff_ne.2 hlong, beq_eq_false_iff_ne.2 hshort]
    rfl

theorem length_le_of_startsWithWord {word : String} (h : startsWithWord word u = true) :
    word.length ≤ u.length := by
  simp only [startsWithWord, Bool.and_eq_true, beq_iff_eq] at h
  have hlen := congrArg List.length h.1
  rw [length_foldCase, List.length_map, List.length_take] at hlen
  omega

theorem startsWithBy_paren : startsWithBy (u ++ ')' :: r) = startsWithBy u := by
  have hblank : Character.isBlank ')' = false := by decide
  have hsiblings : ')'.toLower ∉ foldCase "SIBLINGS" := by decide
  have hby : ')'.toLower ∉ foldCase "BY" := by decide
  simp only [startsWithBy, dropWhile_paren hblank, startsWithWord_stop rfl hsiblings]
  generalize u.dropWhile Character.isBlank = v
  by_cases hs : startsWithWord "SIBLINGS" v = true
  · rw [if_pos hs, if_pos hs, drop_paren (length_le_of_startsWithWord hs), dropWhile_paren hblank,
      startsWithWord_stop rfl hby]
  · rw [if_neg hs, if_neg hs, startsWithWord_stop rfl hby]

theorem bareWord_paren : bareWord d (u ++ ')' :: r) = bareWord d u := by
  have hle := (List.takeWhile_prefix Character.isWord (l := u)).length_le
  simp only [bareWord, takeWhile_paren (p := Character.isWord) (by decide), drop_paren hle]
  simp only [wordType, startsWithBy_paren]

/-! ## Numbers -/

theorem digits_paren : digits (u ++ ')' :: r) = digits u := by
  rw [digits, takeWhile_paren (by decide), digits]

theorem fractionLength_paren : fractionLength (u ++ ')' :: r) = fractionLength u := by
  simp only [fractionLength,
    charAt_paren (c := '.') (by decide) (by decide) (Nat.zero_le u.length)]
  by_cases hdot : charAt u 0 = '.'
  · have hlen : 0 < u.length := lt_length_of_charAt (by rw [hdot]; decide)
    rw [if_pos hdot, if_pos hdot, drop_paren hlen, digits_paren]
  · rw [if_neg hdot, if_neg hdot]

theorem exponentLength_paren : exponentLength (u ++ ')' :: r) = exponentLength u := by
  have hzero := Nat.zero_le u.length
  simp only [exponentLength, charAt_paren (c := 'e') (by decide) (by decide) hzero,
    charAt_paren (c := 'E') (by decide) (by decide) hzero]
  by_cases he : charAt u 0 = 'e' ∨ charAt u 0 = 'E'
  · have hlen : 0 < u.length :=
      lt_length_of_charAt (by rcases he with h | h <;> rw [h] <;> decide)
    simp only [charAt_paren (c := '+') (by decide) (by decide) hlen,
      charAt_paren (c := '-') (by decide) (by decide) hlen]
    rw [if_pos he, if_pos he]
    by_cases hsign : charAt u 1 = '+' ∨ charAt u 1 = '-'
    · have hlong : 1 < u.length :=
        lt_length_of_charAt (by rcases hsign with h | h <;> rw [h] <;> decide)
      rw [if_pos hsign, drop_paren hlong, digits_paren]
    · rw [if_neg hsign, drop_paren hlen, digits_paren]
  · rw [if_neg he, if_neg he]

theorem suffixLength_paren : suffixLength (u ++ ')' :: r) = suffixLength u := by
  have hzero := Nat.zero_le u.length
  simp only [suffixLength, charAt_paren (c := 'f') (by decide) (by decide) hzero,
    charAt_paren (c := 'F') (by decide) (by decide) hzero,
    charAt_paren (c := 'd') (by decide) (by decide) hzero,
    charAt_paren (c := 'D') (by decide) (by decide) hzero]

theorem number_paren : number (u ++ ')' :: r) = number u := by
  have hsign : (if charAt u 0 = '-' then 1 else 0) ≤ u.length := by
    by_cases h : charAt u 0 = '-'
    · rw [if_pos h]
      exact lt_length_of_charAt (by rw [h]; decide)
    · rw [if_neg h]
      exact Nat.zero_le _
  have hwhole := add_digits_le hsign
  have hfraction := add_le_of_drop fractionLength_le hwhole
  have hexponent := add_le_of_drop exponentLength_le hfraction
  have hsuffix := add_le_of_drop suffixLength_le hexponent
  simp only [number, charAt_paren (c := '-') (by decide) (by decide) (Nat.zero_le u.length)]
  rw [drop_paren hsign, digits_paren, drop_paren hwhole, fractionLength_paren,
    drop_paren hfraction, exponentLength_paren, drop_paren hexponent, suffixLength_paren,
    ofFront_paren hsuffix]

/-! ## Symbols -/

theorem ofSpelling?_spelling {text : String} {s : Symbol} (h : Symbol.ofSpelling? text = some s) :
    s.spelling = text := by
  have hfound := List.find?_some h
  simpa using hfound

theorem length_spelling_of_paren {s : Symbol} {c : Char} (hc : c = '(' ∨ c = ')')
    (h : c ∈ s.spelling.toList) : s.spelling.length = 1 := by
  rcases hc with rfl | rfl <;> revert h <;> cases s <;> decide

theorem ofSpelling?_paren {cs : List Char} {c : Char} (hc : c = '(' ∨ c = ')') (h : c ∈ cs)
    (hlen : 1 < cs.length) : Symbol.ofSpelling? (String.ofList cs) = none := by
  cases hs : Symbol.ofSpelling? (String.ofList cs) with
  | none => rfl
  | some s =>
    have hspelling := ofSpelling?_spelling hs
    have hone := length_spelling_of_paren hc (s := s) (by rw [hspelling]; simpa using h)
    rw [hspelling, String.length_ofList] at hone
    omega

theorem longestSymbol?_take (hn : n ≤ u.length) :
    longestSymbol? (u ++ ')' :: r) n = longestSymbol? u n := by
  induction n with
  | zero => rfl
  | succ n ih => rw [longestSymbol?, take_paren hn, ih (by omega), longestSymbol?]

theorem longestSymbol?_paren (hu : u ≠ []) (hn : u.length ≤ n) :
    longestSymbol? (u ++ ')' :: r) n = longestSymbol? u u.length := by
  have hpos := List.length_pos_iff.2 hu
  induction n with
  | zero => omega
  | succ n ih =>
    by_cases hlt : u.length ≤ n
    · have hmem : ')' ∈ (u ++ ')' :: r).take (n + 1) := by
        obtain ⟨m, hm⟩ : ∃ m, n + 1 - u.length = m + 1 := ⟨n - u.length, by omega⟩
        rw [List.take_append, hm, List.take_succ_cons]
        simp
      have hlen : 1 < ((u ++ ')' :: r).take (n + 1)).length := by
        rw [List.length_take, List.length_append, List.length_cons]
        omega
      rw [longestSymbol?, ofSpelling?_paren (Or.inr rfl) hmem hlen]
      exact ih hlt
    · obtain heq : n + 1 = u.length := by omega
      rw [heq, longestSymbol?_take (Nat.le_refl _)]

theorem symbol_paren (hu : u ≠ []) : symbol (u ++ ')' :: r) = symbol u := by
  have hle := (List.takeWhile_prefix Character.isSymbol (l := u)).length_le
  have hrun : longestSymbol? (u ++ ')' :: r)
      ((u ++ ')' :: r).takeWhile Character.isSymbol).length =
      longestSymbol? u (u.takeWhile Character.isSymbol).length := by
    by_cases hall : ∀ c ∈ u, Character.isSymbol c = true
    · have hself := List.takeWhile_eq_self_iff.2 hall
      rw [List.takeWhile_append_of_pos hall, hself, longestSymbol?_paren hu (by simp)]
    · have hstop : (u.takeWhile Character.isSymbol).length ≠ u.length := by
        intro heq
        have hself := (List.takeWhile_prefix Character.isSymbol (l := u)).eq_of_length heq
        exact hall (List.takeWhile_eq_self_iff.1 hself)
      rw [List.takeWhile_append, if_neg hstop, longestSymbol?_take hle]
  simp only [symbol, hrun]
  split
  · next s k hs =>
    rw [take_paren ((longestSymbol?_length hs).2.trans hle)]
  · obtain ⟨c, v, rfl⟩ := List.exists_cons_of_ne_nil hu
    rfl

end Lexeme

/-! ## Quotes -/

namespace Quoted

theorem closing?_none {q : Char} (h : q ∉ r) : closing? q r = none := by
  induction r using closing?.induct q with
  | case1 => rfl
  | case2 c hc => simp [hc.1] at h
  | case3 c hc => simp [closing?, hc]
  | case4 | case5 => simp at h
  | case6 c c' r hc ih =>
    have hbehind := ih fun hm => h (List.mem_cons_of_mem _ hm)
    simp only [closing?, if_neg hc, hbehind, Option.map_none]

theorem closing?_paren {q : Char} (hq : q ∉ ')' :: r) (hm : q ≠ endMark) :
    closing? q (u ++ ')' :: r) = closing? q u := by
  have hp : ')' ≠ q := fun h => hq (h ▸ List.mem_cons_self)
  induction u using closing?.induct q with
  | case1 => exact closing?_none hq
  | case2 c hc =>
    obtain rfl := hc.1
    simp [closing?, hp, hm]
  | case3 c hc =>
    have hne : c ≠ q := fun h => hc ⟨h, hm⟩
    simp only [List.cons_append, List.nil_append, closing?, if_neg hne, if_neg hc,
      closing?_none hq, Option.map_none]
  | case4 u ih =>
    simp only [List.cons_append, closing?, if_true, ih]
  | case5 c u hc => simp [closing?, hc]
  | case6 c c' u hc ih =>
    rw [List.cons_append] at ih
    simp only [List.cons_append, closing?, if_neg hc, ih]

end Quoted

theorem quotedLength_le {q : Char} (hu : u ≠ []) (h : Quoted.length? q u = some n) :
    n ≤ u.length := by
  obtain ⟨c, v, rfl⟩ := List.exists_cons_of_ne_nil hu
  obtain ⟨m, hm, rfl⟩ := Option.map_eq_some_iff.1 h
  obtain ⟨content, w, hv, rfl⟩ := Quoted.closing?_content hm
  rw [List.tail_cons] at hv
  simp [hv]

theorem beginsNumber_paren (hu : u ≠ []) :
    Piece.beginsNumber d.lexis before (u ++ ')' :: r) = Piece.beginsNumber d.lexis before u := by
  obtain ⟨c, v, rfl⟩ := List.exists_cons_of_ne_nil hu
  have hone : 1 ≤ (c :: v).length := by simp
  have hfirst : charAt (c :: v ++ ')' :: r) 0 = c := rfl
  have hdot := charAt_paren (r := r) (c := '.') (by decide) (by decide) hone
  have hdigit := charAt_stop (r := r) (x := ')') Character.isDigit (by decide) hone
  simp only [Piece.beginsNumber, hfirst, beq_eq_decide, hdot, hdigit]
  by_cases hpoint : charAt (c :: v) 1 = '.'
  · have hlen : 1 < (c :: v).length := lt_length_of_charAt (by rw [hpoint]; decide)
    rw [charAt_stop Character.isDigit (by decide) hlen]
    rfl
  · rw [decide_eq_false hpoint]
    rfl

section Plain

variable (hr : IsPlain r)

include hr

theorem IsPlain.not_mem {q : Char} (hq : q ∈ ['\'', '"', '\x60', ']']) : q ∉ ')' :: r := by
  intro hmem
  rcases List.mem_cons.1 hmem with rfl | hmem
  · revert hq
    decide
  · have hne := hr q hmem
    simp only [List.mem_cons, List.not_mem_nil] at hq hne
    tauto

theorem quotedLength_paren {q : Char} (hq : q ∈ ['\'', '"', '\x60', ']']) (hu : u ≠ []) :
    Quoted.length? q (u ++ ')' :: r) = Quoted.length? q u := by
  obtain ⟨c, v, rfl⟩ := List.exists_cons_of_ne_nil hu
  have hm : q ≠ endMark := by
    rintro rfl
    revert hq
    decide
  simp only [Quoted.length?, List.cons_append, List.tail_cons,
    Quoted.closing?_paren (hr.not_mem hq) hm]

theorem quotedString_paren (hq : charAt u 0 = '\'' ∨ charAt u 0 = '"') :
    Lexeme.quotedString (u ++ ')' :: r) = Lexeme.quotedString u := by
  have hm : charAt u 0 ≠ endMark := by rcases hq with h | h <;> rw [h] <;> decide
  have hu := ne_nil_of_charAt hm
  have hfirst : charAt (u ++ ')' :: r) 0 = charAt u 0 := by
    obtain ⟨c, v, rfl⟩ := List.exists_cons_of_ne_nil hu
    rfl
  have hmem : charAt u 0 ∈ ['\'', '"', '\x60', ']'] := by
    rcases hq with h | h <;> rw [h] <;> decide
  simp only [Lexeme.quotedString, hfirst, quotedLength_paren hr hmem hu]
  split
  · next n hn =>
    have hle := quotedLength_le hu hn
    rw [slice, slice, take_paren (by omega)]
  · rfl

theorem word_paren (hw : Piece.beginsWord d.lexis (charAt u 0) = true) :
    Lexeme.word d (u ++ ')' :: r) = Lexeme.word d u := by
  have hm : charAt u 0 ≠ endMark := by
    intro hm
    rw [hm] at hw
    cases d <;> revert hw <;> decide
  have hu := ne_nil_of_charAt hm
  have hfirst : charAt (u ++ ')' :: r) 0 = charAt u 0 := by
    obtain ⟨c, v, rfl⟩ := List.exists_cons_of_ne_nil hu
    rfl
  simp only [Lexeme.word, hfirst, Lexeme.bareWord_paren]
  by_cases hq : charAt u 0 = '\x60' ∨ charAt u 0 = '"' ∨ charAt u 0 = '['
  · rw [if_pos hq, if_pos hq]
    have hmem : Quoted.terminator (charAt u 0) ∈ ['\'', '"', '\x60', ']'] := by
      rcases hq with h | h | h <;> rw [h] <;> decide
    simp only [Lexeme.quotedWord, hfirst, quotedLength_paren hr hmem hu]
    split
    · next n hn => rw [Lexeme.ofFront_paren (quotedLength_le hu hn)]
    · rfl
  · rw [if_neg hq, if_neg hq]

theorem nationalString_paren (hq : charAt u 1 = '\'') :
    Piece.nationalString (u ++ ')' :: r) = Piece.nationalString u := by
  have hlen : 1 < u.length := lt_length_of_charAt (by rw [hq]; decide)
  have hfront : charAt (u.drop 1) 0 = '\'' := by
    rw [← hq]
    simp [charAt, List.getD_eq_getElem?_getD]
  unfold Piece.nationalString
  rw [drop_paren (by omega), quotedString_paren hr (Or.inl hfront)]

theorem significant_paren (hu : u ≠ []) :
    Piece.significant d before (u ++ ')' :: r) = Piece.significant d before u := by
  have hone : 1 ≤ u.length := List.length_pos_iff.2 hu
  have hfirst : charAt (u ++ ')' :: r) 0 = charAt u 0 := by
    obtain ⟨c, v, rfl⟩ := List.exists_cons_of_ne_nil hu
    rfl
  have hempty : (u ++ ')' :: r).isEmpty = u.isEmpty := by
    rw [List.isEmpty_eq_false_iff.2 hu, List.isEmpty_eq_false_iff.2 (by simp)]
  simp only [Piece.significant, hfirst, beq_eq_decide,
    charAt_paren (c := '\'') (by decide) (by decide) hone,
    charAt_paren (c := 'x') (by decide) (by decide) hone,
    charAt_paren (c := 'X') (by decide) (by decide) hone, beginsNumber_paren hu, hempty,
    Lexeme.symbol_paren hu, Lexeme.number_paren]
  split
  · next h =>
    simp only [Bool.and_eq_true, decide_eq_true_eq] at h
    rw [Lexeme.variableName_paren h.2]
  split
  · next h =>
    simp only [Bool.and_eq_true, decide_eq_true_eq] at h
    exact nationalString_paren hr h.2
  split
  · next h => rw [word_paren hr h]
  split
  · next h =>
    simp only [Bool.and_eq_true, Bool.or_eq_true, decide_eq_true_eq] at h
    have hlen : 1 < u.length := by
      apply lt_length_of_charAt
      rcases h.2 with hx | hx <;> rw [hx] <;> decide
    rw [Lexeme.hexNumber_paren hlen]
  split
  · rfl
  split
  · rfl
  split
  · next h =>
    simp only [Bool.or_eq_true, decide_eq_true_eq] at h
    rw [quotedString_paren hr h]
  · rfl

end Plain

/-! ## Comments -/

namespace Ignored

theorem closing?_none (h : '/' ∉ r) : closing? r = none := by
  induction r using closing?.induct with
  | case1 | case2 => rfl
  | case3 c c' r hc => simp [hc.2] at h
  | case4 c c' r hc ih =>
    have hbehind := ih fun hm => h (List.mem_cons_of_mem _ hm)
    simp only [closing?, if_neg hc, hbehind, Option.map_none]

theorem closing?_paren (h : '/' ∉ r) : closing? (u ++ ')' :: r) = closing? u := by
  have hnone : closing? (')' :: r) = none := closing?_none (by simp [h])
  induction u using closing?.induct with
  | case1 => exact hnone
  | case2 c =>
    have hc : ¬(c = '*' ∧ ')' = '/') := by simp
    simp only [List.cons_append, List.nil_append, closing?, if_neg hc, hnone, Option.map_none]
  | case3 c c' u hc => simp only [List.cons_append, closing?, if_pos hc]
  | case4 c c' u hc ih =>
    rw [List.cons_append] at ih
    simp only [List.cons_append, closing?, if_neg hc, ih]

theorem block_paren {cause : LexicalCause} (h : '/' ∉ r) (hn : n ≤ u.length) :
    block n cause (u ++ ')' :: r) = block n cause u := by
  rw [block, drop_paren hn, closing?_paren h, block]

theorem line_paren (h : '\n' ∈ u.drop n ∨ endMark ∈ u.drop n) :
    line n (u ++ ')' :: r) = line n u := by
  have hn : n ≤ u.length := by
    by_contra hlt
    rw [List.drop_eq_nil_of_le (by omega)] at h
    simp at h
  have hstop : ((u.drop n).takeWhile fun c => c != '\n' && c != endMark).length ≠
      (u.drop n).length := by
    intro heq
    have hself := (List.takeWhile_prefix (fun c => c != '\n' && c != endMark)).eq_of_length heq
    have hall := List.takeWhile_eq_self_iff.1 hself
    rcases h with h | h <;> simpa using hall _ h
  have hle := (List.takeWhile_prefix (fun c => c != '\n' && c != endMark)
    (l := u.drop n)).length_le
  rw [List.length_drop] at hstop hle
  simp only [line, drop_paren hn]
  rw [List.takeWhile_append, if_neg (by rw [List.length_drop]; exact hstop), List.length_append]
  omega

def IsOpen (lexis : Lexis) (u : List Char) : Prop :=
  ∃ o v, OpensLine lexis o ∧ u = o ++ v ∧ '\n' ∉ v ∧ endMark ∉ v

/-- Such a comment runs to the end of the text. -/
theorem IsOpen.stretch (h : IsOpen d.lexis u) : stretch d.lexis u = .ok u.length := by
  obtain ⟨o, v, ho, rfl, hn, he⟩ := h
  have hline : line o.length (o ++ v) = (o ++ v).length := by
    have hall : v.takeWhile (fun c => c != '\n' && c != endMark) = v := by
      apply List.takeWhile_eq_self_iff.2
      intro c hc
      have hn' : c ≠ '\n' := fun h => hn (h ▸ hc)
      have he' : c ≠ endMark := fun h => he (h ▸ hc)
      simp [hn', he']
    rw [line, List.drop_left, hall, List.length_append]
    omega
  have hcomment : comment (o ++ v) = .ok (line o.length (o ++ v)) := by
    rcases ho with rfl | rfl | ⟨-, rfl⟩ <;> simp [comment, charAt]
  have hat : isComment d.lexis (o ++ v) = true := by
    rcases ho with rfl | rfl | ⟨hp, rfl⟩
    · simp [isComment, charAt]
    · simp [isComment, charAt]
    · simp [isComment, charAt, hp]
  have hhint : hintOpening? d.lexis (o ++ v) = none := by
    cases d <;> rcases ho with rfl | rfl | ⟨hp, rfl⟩ <;> rfl
  rw [Ignored.stretch, hhint]
  simp only [hat, if_true, hcomment, hline]

theorem IsOpen.paren (hr : IsPlain r) (h : IsOpen d.lexis u) : IsOpen d.lexis (u ++ ')' :: r) := by
  obtain ⟨o, v, ho, rfl, hn, he⟩ := h
  refine ⟨o, v ++ ')' :: r, ho, by simp, ?_, ?_⟩ <;>
  · simp only [List.mem_append, List.mem_cons, not_or]
    refine ⟨by assumption, by decide, fun hm => ?_⟩
    exact hr _ hm (by decide)

theorem isPrefixOf_paren {o : List Char} (h : ')' ∉ o) :
    o.isPrefixOf (u ++ ')' :: r) = o.isPrefixOf u := by
  induction o generalizing u with
  | nil => simp
  | cons c o ih =>
    simp only [List.mem_cons, not_or] at h
    cases u with
    | nil => simp [List.isPrefixOf, Ne.symm h.1]
    | cons c' u => simp [List.isPrefixOf, ih h.2]

theorem hintOpening?_paren : hintOpening? d.lexis (u ++ ')' :: r) = hintOpening? d.lexis u := by
  have hmysql : ')' ∉ "/*!".toList := by decide
  have horacle : ')' ∉ "/*+".toList := by decide
  cases d with
  | mysql => simp only [hintOpening?, Dialect.lexis, Option.filter, isPrefixOf_paren hmysql]
  | oracle => simp only [hintOpening?, Dialect.lexis, Option.filter, isPrefixOf_paren horacle]
  | postgresql | sqlserver | h2 => rfl

theorem isComment_paren (hu : u ≠ []) :
    isComment d.lexis (u ++ ')' :: r) = isComment d.lexis u := by
  have hone : 1 ≤ u.length := List.length_pos_iff.2 hu
  have hzero := Nat.zero_le u.length
  simp only [isComment, beq_eq_decide, charAt_paren (c := '/') (by decide) (by decide) hzero,
    charAt_paren (c := '/') (by decide) (by decide) hone,
    charAt_paren (c := '-') (by decide) (by decide) hzero,
    charAt_paren (c := '-') (by decide) (by decide) hone,
    charAt_paren (c := '*') (by decide) (by decide) hone,
    charAt_paren (c := '#') (by decide) (by decide) hzero]

/-- A comment of one line that is not open has its end in front of the parenthesis. -/
theorem line_closed {o : List Char} (h : ¬IsOpen d.lexis u) (ho : OpensLine d.lexis o)
    (hfront : o <+: u) : line o.length (u ++ ')' :: r) = line o.length u := by
  obtain ⟨v, rfl⟩ := hfront
  apply line_paren
  rw [List.drop_left]
  by_contra hnone
  exact h ⟨o, v, ho, rfl, fun hm => hnone (Or.inl hm), fun hm => hnone (Or.inr hm)⟩

theorem comment_paren (hr : IsPlain r) (hu : u ≠ []) (h : ¬IsOpen d.lexis u)
    (hc : isComment d.lexis u = true) : comment (u ++ ')' :: r) = comment u := by
  have hslash : '/' ∉ r := fun hm => hr _ hm (by decide)
  have hone : 1 ≤ u.length := List.length_pos_iff.2 hu
  have hzero := Nat.zero_le u.length
  simp only [isComment, Bool.or_eq_true, Bool.and_eq_true, beq_iff_eq] at hc
  simp only [comment, charAt_paren (c := '/') (by decide) (by decide) hzero,
    charAt_paren (c := '/') (by decide) (by decide) hone,
    charAt_paren (c := '-') (by decide) (by decide) hzero,
    charAt_paren (c := '-') (by decide) (by decide) hone,
    charAt_paren (c := '*') (by decide) (by decide) hone,
    charAt_paren (c := '#') (by decide) (by decide) hzero]
  by_cases hline : (charAt u 0 = '/' ∧ charAt u 1 = '/') ∨ (charAt u 0 = '-' ∧ charAt u 1 = '-')
  · rw [if_pos hline, if_pos hline]
    rcases hline with ⟨h₀, h₁⟩ | ⟨h₀, h₁⟩ <;>
      obtain ⟨v, rfl⟩ := eq_cons_cons_of_charAt h₀ h₁ (by decide) (by decide)
    · exact congrArg Except.ok (line_closed (o := ['/', '/']) h (Or.inr (Or.inl rfl)) ⟨v, rfl⟩)
    · exact congrArg Except.ok (line_closed (o := ['-', '-']) h (Or.inl rfl) ⟨v, rfl⟩)
  rw [if_neg hline, if_neg hline]
  by_cases hpound : charAt u 0 = '#'
  · obtain ⟨v, rfl⟩ := eq_cons_of_charAt hpound (by decide)
    have hlexis : d.lexis.poundComment = true := by simpa [hpound] using hc
    rw [if_pos hpound, if_pos hpound]
    exact congrArg Except.ok (line_closed (o := ['#']) h (Or.inr (Or.inr ⟨hlexis, rfl⟩)) ⟨v, rfl⟩)
  rw [if_neg hpound, if_neg hpound]
  by_cases hblock : charAt u 0 = '/' ∧ charAt u 1 = '*'
  · have hlen : 1 < u.length := lt_length_of_charAt (by rw [hblock.2]; decide)
    rw [if_pos hblock, if_pos hblock, block_paren hslash hlen]
  · rw [if_neg hblock, if_neg hblock]

theorem stretch_paren (hr : IsPlain r) (hu : u ≠ []) (h : ¬IsOpen d.lexis u) :
    stretch d.lexis (u ++ ')' :: r) = stretch d.lexis u := by
  have hslash : '/' ∉ r := fun hm => hr _ hm (by decide)
  unfold stretch
  rw [hintOpening?_paren]
  cases hopening : hintOpening? d.lexis u with
  | some o =>
    have hprefix : o.toList <+: u := by
      have hfilter := (Option.filter_eq_some_iff.1 hopening).2
      exact List.isPrefixOf_iff_prefix.1 hfilter
    have hlen : o.length ≤ u.length := by
      rw [← String.length_toList]
      exact hprefix.length_le
    exact block_paren hslash hlen
  | none =>
    by_cases hc : isComment d.lexis u = true
    · simp only [isComment_paren hu, if_pos hc, comment_paren hr hu h hc]
    · simp only [isComment_paren hu, if_neg hc, blanks,
        takeWhile_paren (p := Character.isBlank) (by decide)]

end Ignored

/-! ## Pieces -/

theorem Piece.next_paren (hr : IsPlain r) (hu : u ≠ []) (h : ¬Ignored.IsOpen d.lexis u) :
    Piece.next d before (u ++ ')' :: r) = Piece.next d before u := by
  unfold next
  rw [Ignored.stretch_paren hr hu h, significant_paren hr hu]

theorem Piece.next_open (hu : u ≠ []) (h : Ignored.IsOpen d.lexis u) :
    Piece.next d before u = .ok (.ignored u.length) := by
  unfold next
  rw [h.stretch]
  obtain ⟨n, hn⟩ : ∃ n, u.length = n + 1 := Nat.exists_eq_succ_of_ne_zero (by simpa using hu)
  rw [hn]
  rfl

theorem Spells.paren (before : Option Char) (u : List Char) :
    (∃ last, ∀ r, IsPlain r → ∀ ws, Spells d before (u ++ ')' :: r) ws ↔
      ∃ us vs, Spells d before u us ∧ Spells d last (')' :: r) vs ∧ ws = us ++ vs) ∨
    ∀ r, IsPlain r → ∀ ws, Spells d before (u ++ ')' :: r) ws ↔ Spells d before u ws := by
  -- Piece by piece: an open comment takes all that is left, and any other piece in front is the
  -- same in both texts.
  induction hn : u.length using Nat.strong_induction_on generalizing before u with
  | h n ih =>
    subst hn
    by_cases hu : u = []
    · left
      subst hu
      refine ⟨before, fun r _ ws => ?_⟩
      simp [Spells.nil_iff]
    by_cases hopen : Ignored.IsOpen d.lexis u
    · right
      intro r hr ws
      rw [Spells.ignored_iff (Piece.next_open hu hopen),
        Spells.ignored_iff (Piece.next_open (by simp) (hopen.paren hr)), List.drop_length,
        List.drop_length, Spells.nil_iff, Spells.nil_iff]
    have hnext : ∀ r, IsPlain r → Piece.next d before (u ++ ')' :: r) = Piece.next d before u :=
      fun _ hr => Piece.next_paren hr hu hopen
    have hpos := List.length_pos_iff.2 hu
    cases hp : Piece.next d before u with
    | error fault =>
      right
      intro r hr ws
      exact iff_of_false (not_of_fault ((hnext r hr).trans hp)) (not_of_fault hp)
    | ok p =>
      cases p with
      | atEnd => exact (hu (Piece.next_atEnd hp)).elim
      | ignored k =>
        obtain ⟨hk, hstretch⟩ := Piece.next_ignored hp
        have hskipped : SkippedBetween d.lexis u 0 (0 + k) := Ignored.stretch_skipped hstretch
        have hle := hskipped.le_length (Nat.zero_le _)
        rw [Nat.zero_add] at hle
        have hstep : ∀ r, IsPlain r → ∀ ws, Spells d before (u ++ ')' :: r) ws ↔
            Spells d (u.take k).getLast? (u.drop k ++ ')' :: r) ws := by
          intro r hr ws
          rw [ignored_iff ((hnext r hr).trans hp), take_paren hle, drop_paren hle]
        rcases ih _ (by rw [List.length_drop]; omega) (u.take k).getLast? (u.drop k) rfl with
          ⟨last, hlast⟩ | hgone
        · left
          refine ⟨last, fun r hr ws => ?_⟩
          simp only [hstep r hr, hlast r hr, ignored_iff hp]
        · right
          intro r hr ws
          rw [hstep r hr, hgone r hr, ignored_iff hp]
      | lexeme x =>
        have hle := (Piece.next_covers hp).le
        have hk := (Piece.next_covers hp).pos
        have hstep : ∀ r, IsPlain r → ∀ ws, Spells d before (u ++ ')' :: r) ws ↔
            ∃ vs, ws = (x.type, x.literals) :: vs ∧
              Spells d (u.take x.length).getLast? (u.drop x.length ++ ')' :: r) vs := by
          intro r hr ws
          rw [lexeme_iff ((hnext r hr).trans hp), take_paren hle, drop_paren hle]
        rcases ih _ (by rw [List.length_drop]; omega) (u.take x.length).getLast?
          (u.drop x.length) rfl with ⟨last, hlast⟩ | hgone
        · left
          refine ⟨last, fun r hr ws => ?_⟩
          simp only [hstep r hr, hlast r hr, lexeme_iff hp]
          constructor
          · rintro ⟨_, rfl, us, vs, hus, hvs, rfl⟩
            exact ⟨_, vs, ⟨us, rfl, hus⟩, hvs, rfl⟩
          · rintro ⟨_, vs, ⟨us, rfl, hus⟩, hvs, rfl⟩
            exact ⟨_, rfl, us, vs, hus, hvs, rfl⟩
        · right
          intro r hr ws
          simp only [hstep r hr, hgone r hr, lexeme_iff hp]

end SqlFront

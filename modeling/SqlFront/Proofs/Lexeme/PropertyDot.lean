import SqlFront.Proofs.Lexeme.BareWord
import SqlFront.Proofs.Lexeme.LongestSymbol

/-!
# A point behind a word

A point, or a minus and a point, in front of a digit begins a number unless a word ends before it.
The end of a word is told by its last character alone: it has to be one that a word can begin with.
Behind a word that ends with a digit or `#` the point therefore belongs to the number.
-/

set_option autoImplicit false

namespace SqlFront

variable {d : Dialect} {before last : Option Char} {c x : Char} {t : TokenType} {l word : String}
  {a r rest ds w : List Char} {n place : ℕ} {ts : List Token} {s : Symbol}

/-! ## The last character of a word -/

namespace Character

theorem ne_of_isDigit (h : isDigit c = true) (hx : isDigit x = false) : c ≠ x := by
  rintro rfl
  rw [h] at hx
  cases hx

theorem isWord_of_isDigit (h : isDigit c = true) : isWord c = true := by simp [isWord, h]

theorem not_isLetter_of_isDigit (h : isDigit c = true) : isLetter c = false := by
  have hrange : 48 ≤ c.val.toNat ∧ c.val.toNat ≤ 57 := by
    simpa [isDigit, UInt32.le_iff_toNat_le] using h
  rw [Bool.eq_false_iff]
  intro hletter
  have hletters : (97 ≤ c.val.toNat ∧ c.val.toNat ≤ 122) ∨
      (65 ≤ c.val.toNat ∧ c.val.toNat ≤ 90) := by
    simpa [isLetter, UInt32.le_iff_toNat_le] using hletter
  omega

end Character

theorem Piece.not_beginsWord_iff (h : Character.isWord c = true) :
    beginsWord d.lexis c = false ↔ Character.isDigit c = true ∨ c = '#' := by
  constructor
  · intro hnot
    simp only [beginsWord, Bool.or_eq_false_iff, beq_eq_false_iff_ne] at hnot
    obtain ⟨⟨⟨⟨hletter, -⟩, hunderscore⟩, hdollar⟩, -⟩ := hnot
    simpa [Character.isWord, hletter, hunderscore, hdollar] using h
  · rintro (hdigit | rfl)
    · have hother : ∀ x, Character.isDigit x = false → c ≠ x := fun x =>
        Character.ne_of_isDigit hdigit
      have hquotes : c ∉ d.lexis.identifierQuotes := by
        cases d <;> simp [Dialect.lexis, hother '"' (by decide), hother '[' (by decide)]
      simp [beginsWord, hquotes, Character.not_isLetter_of_isDigit hdigit,
        hother '\x60' (by decide), hother '_' (by decide), hother '$' (by decide)]
    · cases d <;> decide

/-! ## Points and minus signs -/

namespace Symbol

theorem longestOf_single (hs : s.spelling.toList = [x])
    (hnext : ∀ s' : Symbol, ¬[x, c] <+: s'.spelling.toList) : s.LongestOf (x :: c :: r) := by
  constructor
  · rw [hs]
    exact List.prefix_append [x] (c :: r)
  · intro s' hfront
    rw [← String.length_toList, ← String.length_toList, hs]
    by_contra hlong
    exact hnext s' (List.prefix_of_prefix_length_le (List.prefix_append [x, c] r) hfront
      (Nat.not_le.1 hlong))

end Symbol

theorem Character.not_isSymbol_of_isDigit (h : isDigit c = true) : isSymbol c = false := by
  have hall : (symbolCharacters.all fun c => !isDigit c) = true := by decide
  rw [Bool.eq_false_iff]
  intro hc
  have hnot := List.all_eq_true.1 hall c (by simpa [isSymbol] using hc)
  rw [h] at hnot
  cases hnot

theorem Lexeme.symbol_dot (h : Character.isDigit c = true) :
    symbol ('.' :: c :: r) = .ok ⟨.symbol .dot, ".", 1⟩ := by
  have hpoint : Character.isSymbol '.' = true := by decide
  refine symbol_eq (Symbol.longestOf_single (by decide) fun s' hfront => ?_) hpoint
  obtain ⟨more, hmore⟩ := hfront
  have hsymbols := Symbol.isSymbol_of_front (List.prefix_refl s'.spelling.toList)
    (by rw [← hmore]; exact hpoint)
  have hsymbol := hsymbols c (by rw [← hmore]; simp)
  rw [Character.not_isSymbol_of_isDigit h] at hsymbol
  cases hsymbol

theorem Lexeme.symbol_minus : symbol ('-' :: '.' :: r) = .ok ⟨.symbol .minus, "-", 1⟩ := by
  have hminus : Character.isSymbol '-' = true := by decide
  have hnext : ∀ s : Symbol, ¬['-', '.'] <+: s.spelling.toList := fun s => by cases s <;> decide
  exact symbol_eq (Symbol.longestOf_single (by decide) hnext) hminus

namespace Piece

theorem significant_pointOrMinus (hc : c = '.' ∨ c = '-') : significant d before (c :: r) =
    if beginsNumber d.lexis before (c :: r) then .ok (.lexeme (Lexeme.number (c :: r)))
    else here (Lexeme.symbol (c :: r)) := by
  rcases hc with rfl | rfl <;> cases d <;> rfl

theorem next_point (before : Option Char) (h : Character.isDigit c = true) :
    next d before ('.' :: c :: r) = .ok (.lexeme (if before.any (beginsWord d.lexis) then
      ⟨.symbol .dot, ".", 1⟩ else Lexeme.number ('.' :: c :: r))) := by
  have hnumber : beginsNumber d.lexis before ('.' :: c :: r) =
      !before.any (beginsWord d.lexis) := by
    simp [beginsNumber_eq, charAt, h, (by decide : Character.isDigit '.' = false)]
  rw [next, Ignored.stretch_zero (by decide) (by decide)]
  simp only [significant_pointOrMinus (.inl rfl), hnumber, Lexeme.symbol_dot h, here]
  cases before.any (beginsWord d.lexis) <;> rfl

theorem stretch_minusPoint : Ignored.stretch d.lexis ('-' :: '.' :: r) = .ok 0 := by
  cases d <;> rfl

theorem next_minusPoint (before : Option Char) (h : Character.isDigit c = true) :
    next d before ('-' :: '.' :: c :: r) = .ok (.lexeme (if before.any (beginsWord d.lexis) then
      ⟨.symbol .minus, "-", 1⟩ else Lexeme.number ('-' :: '.' :: c :: r))) := by
  have hnumber : beginsNumber d.lexis before ('-' :: '.' :: c :: r) =
      !before.any (beginsWord d.lexis) := by
    simp [beginsNumber_eq, charAt, h, (by decide : Character.isDigit '.' = false),
      (by decide : Character.isDigit '-' = false)]
  rw [next, stretch_minusPoint]
  simp only [significant_pointOrMinus (.inr rfl), hnumber, Lexeme.symbol_minus, here]
  cases before.any (beginsWord d.lexis) <;> rfl

end Piece

/-! ## Numbers that end the text -/

namespace Lexeme

theorem digits_eq_length (h : ∀ c ∈ ds, Character.isDigit c = true) : digits ds = ds.length :=
  congrArg List.length (List.takeWhile_eq_self_iff.2 h)

theorem numberLength_of_end
    (h : wholeLength r + fractionLength (r.drop (wholeLength r)) = r.length) :
    numberLength r = r.length := by
  have hexponent : exponentLength [] = 0 := rfl
  have hsuffix : suffixLength [] = 0 := rfl
  simp only [numberLength, h, List.drop_length, hexponent, Nat.add_zero, hsuffix]

theorem ofFront_length (kind : Literal) (r : List Char) :
    ofFront kind r.length r = ⟨.literal kind, String.ofList r, r.length⟩ := by
  rw [ofFront, List.take_length]

theorem number_digits (h : ∀ c ∈ ds, Character.isDigit c = true) :
    number ds = ⟨.literal .int, String.ofList ds, ds.length⟩ := by
  have hsign : charAt ds 0 ≠ '-' := by
    cases ds with
    | nil => decide
    | cons c ds =>
      rintro rfl
      exact absurd (h '-' List.mem_cons_self) (by decide)
  have hwhole : wholeLength ds = ds.length := by
    simp only [wholeLength, signedLength, if_neg hsign, List.drop_zero, Nat.zero_add]
    exact digits_eq_length h
  have hlength : numberLength ds = ds.length := by
    refine numberLength_of_end ?_
    rw [hwhole, List.drop_length]
    rfl
  rw [number_eq, hlength, hwhole, if_pos rfl, ofFront_length]

theorem fractionLength_point (h : ∀ c ∈ ds, Character.isDigit c = true) :
    fractionLength ('.' :: ds) = ('.' :: ds).length := by
  rw [List.length_cons, ← digits_eq_length h]
  exact Nat.add_comm 1 (digits ds)

theorem number_point_digits (h : ∀ c ∈ ds, Character.isDigit c = true) :
    number ('.' :: ds) = ⟨.literal .float, String.ofList ('.' :: ds), ds.length + 1⟩ := by
  have hwhole : wholeLength ('.' :: ds) = 0 := rfl
  have hlength : numberLength ('.' :: ds) = ('.' :: ds).length := by
    refine numberLength_of_end ?_
    rw [hwhole, List.drop_zero, Nat.zero_add, fractionLength_point h]
  rw [number_eq, hlength, hwhole, if_neg (by simp), ofFront_length]
  rfl

theorem number_minusPoint_digits (h : ∀ c ∈ ds, Character.isDigit c = true) :
    number ('-' :: '.' :: ds) =
      ⟨.literal .float, String.ofList ('-' :: '.' :: ds), ds.length + 2⟩ := by
  have hwhole : wholeLength ('-' :: '.' :: ds) = 1 := rfl
  have hlength : numberLength ('-' :: '.' :: ds) = ('-' :: '.' :: ds).length := by
    refine numberLength_of_end ?_
    rw [hwhole, List.drop_succ_cons, List.drop_zero, fractionLength_point h]
    exact Nat.add_comm 1 _
  rw [number_eq, hlength, hwhole, if_neg (by simp), ofFront_length]
  rfl

end Lexeme

theorem Piece.next_digits (before : Option Char) (hne : ds ≠ [])
    (h : ∀ c ∈ ds, Character.isDigit c = true) :
    next d before ds = .ok (.lexeme ⟨.literal .int, String.ofList ds, ds.length⟩) := by
  obtain ⟨c, tail, rfl⟩ := List.exists_cons_of_ne_nil hne
  have hc : Character.isDigit c = true := h c List.mem_cons_self
  have hother : ∀ x, Character.isDigit x = false → (c == x) = false := fun x hx =>
    beq_eq_false_iff_ne.2 (Character.ne_of_isDigit hc hx)
  have hstretch : Ignored.stretch d.lexis (c :: tail) = .ok 0 := by
    refine Ignored.stretch_zero (Character.isBlank_of_isDigit hc) ?_
    simp only [List.mem_cons, List.not_mem_nil, or_false]
    rintro (rfl | rfl | rfl) <;> exact absurd hc (by decide)
  have hfirst : charAt (c :: tail) 0 = c := rfl
  have hword : beginsWord d.lexis c = false :=
    (not_beginsWord_iff (Character.isWord_of_isDigit hc)).2 (.inl hc)
  have hhex : (charAt (c :: tail) 1 == 'x' || charAt (c :: tail) 1 == 'X') = false := by
    cases tail with
    | nil => rfl
    | cons c' tail =>
      have hc' := h c' (by simp)
      have hsecond : charAt (c :: c' :: tail) 1 = c' := rfl
      simp only [hsecond, Bool.or_eq_false_iff, beq_eq_false_iff_ne]
      exact ⟨Character.ne_of_isDigit hc' (by decide), Character.ne_of_isDigit hc' (by decide)⟩
  have hnumber : beginsNumber d.lexis before (c :: tail) = true := by
    rw [beginsNumber, hfirst, if_pos hc]
  rw [next, hstretch]
  simp only [significant, hfirst, hother '@' (by decide), hother 'N' (by decide),
    hother 'n' (by decide), hword, hhex, hnumber, Lexeme.number_digits h, Bool.and_false,
    Bool.false_and, Bool.or_false, Bool.false_eq_true, if_false, if_true]

/-! ## Words in front -/

/-- A bare word alone: it begins as a word does, without a quote, and has characters of words. -/
structure IsBareWord (d : Dialect) (w : List Char) : Prop where
  begins : Piece.beginsWord d.lexis (charAt w 0) = true
  all : w.all Character.isWord = true

def EndsInside (w : List Char) : Prop :=
  w.getLast?.any (fun c => Character.isDigit c || c == '#') = true

instance (w : List Char) : Decidable (EndsInside w) := inferInstanceAs (Decidable (_ = true))

namespace IsBareWord

theorem isWord (h : IsBareWord d w) : ∀ c ∈ w, Character.isWord c = true :=
  List.all_eq_true.1 h.all

theorem beginsBare (h : IsBareWord d w) (hx : ∀ x ∈ rest.head?, x ≠ '\'') :
    BeginsBare d (w ++ rest) := by
  obtain ⟨c, tail, rfl⟩ := exists_cons_of_beginsWord h.begins
  have hc : Character.isWord c = true := h.isWord c List.mem_cons_self
  refine ⟨h.begins, ?_, ?_⟩
  · show c ∉ ['\x60', '"', '[']
    simp only [List.mem_cons, List.not_mem_nil, or_false]
    rintro (rfl | rfl | rfl) <;> exact absurd hc (by decide)
  · rintro ⟨-, -, hquote⟩
    cases tail with
    | nil =>
      cases rest with
      | nil => exact absurd hquote (by decide : endMark ≠ '\'')
      | cons x rest => exact hx x rfl hquote
    | cons c' tail =>
      obtain rfl : c' = '\'' := hquote
      exact absurd (h.isWord '\'' (by simp)) (by decide)

/-- The word is read up to its end. -/
theorem next (h : IsBareWord d w) (hstop : ∀ x ∈ rest.head?, Character.isWord x = false)
    (hx : ∀ x ∈ rest.head?, x ≠ '\'') : Piece.next d before (w ++ rest) =
      .ok (.lexeme ⟨Lexeme.wordType d (String.ofList w) rest, String.ofList w, w.length⟩) := by
  have htake : (w ++ rest).takeWhile Character.isWord = w := by
    rw [List.takeWhile_append_of_pos h.isWord]
    cases rest with
    | nil => simp
    | cons x rest => simp [hstop x rfl]
  rw [Piece.next_bareWord (h.beginsBare hx), Lexeme.bareWord, htake, List.drop_left]

theorem last_iff (h : IsBareWord d w) :
    w.getLast?.any (Piece.beginsWord d.lexis) = false ↔ EndsInside w := by
  obtain ⟨c, hc⟩ : ∃ c, w.getLast? = some c := by
    obtain ⟨c, tail, rfl⟩ := exists_cons_of_beginsWord h.begins
    exact ⟨_, List.getLast?_cons⟩
  have hword := h.isWord c (List.mem_of_getLast? hc)
  rw [EndsInside, hc, Option.any_some, Piece.not_beginsWord_iff hword]
  simp

end IsBareWord

theorem Lexeme.wordType_behind (hblank : Character.isBlank x = false) (hs : x.toLower ≠ 's')
    (hb : x.toLower ≠ 'b') : wordType d word (x :: r) = wordType d word [] := by
  have hfront : ∀ look b, (foldCase look).head? = some b → x.toLower ≠ b →
      startsWithWord look (x :: r) = false := by
    intro look b hlook hne
    rw [Bool.eq_false_iff]
    intro hstarts
    obtain ⟨_, _, heq, hb⟩ := (wholeWord_of_startsWithWord hstarts).first hlook
    rw [← (List.cons.inj heq).1] at hb
    exact hne hb
  have hby : startsWithBy (x :: r) = startsWithBy [] := by
    have hskip : (x :: r).dropWhile Character.isBlank = x :: r :=
      List.dropWhile_cons_of_neg (by simp [hblank])
    simp only [startsWithBy, hskip, hfront "SIBLINGS" 's' (by decide) hs,
      hfront "BY" 'b' (by decide) hb, Bool.false_eq_true, if_false]
    decide
  rw [wordType, wordType, hby]

/-! ## Texts of several pieces -/

/-- A piece in front, and then the others. -/
theorem PiecesTo.front (hnext : Piece.next d before (w ++ rest) = .ok (.lexeme ⟨t, l, w.length⟩))
    (h : PiecesTo d a last place w.getLast? (n + w.length) rest ts) :
    PiecesTo d a last place before n (w ++ rest) (⟨t, l, n, n + w.length⟩ :: ts) := by
  refine .lexeme hnext ?_
  rwa [List.take_left, List.drop_left]

/-- A piece that takes what is left. -/
theorem PiecesTo.whole (hnext : Piece.next d before w = .ok (.lexeme ⟨t, l, w.length⟩)) :
    PiecesTo d [] w.getLast? (n + w.length) before n w [⟨t, l, n, n + w.length⟩] := by
  have hpieces : PiecesTo d [] w.getLast? (n + w.length) before n (w ++ []) _ :=
    .front (by rwa [List.append_nil]) .nil
  rwa [List.append_nil] at hpieces

/-- Where nothing is left, these are the tokens of the text. -/
theorem PiecesTo.all {text : List Char} (h : PiecesTo d [] last place none 0 text ts) :
    (TokenStream.ofText d text).all = .ok (ts ++ [Token.atEnd place]) := by
  obtain ⟨j, -, hscan⟩ := h.scan (Nat.le_refl _)
  have hend : TokenStream.scan d j last place [] = ⟨[], .ok (Token.atEnd place)⟩ := by
    cases j with
    | zero => rfl
    | succ j => rw [TokenStream.scan, Piece.next_nil]
  rw [TokenStream.ofText, hscan, hend, List.append_nil]
  rfl

namespace IsBareWord

def token (d : Dialect) (w : List Char) : Token :=
  ⟨Lexeme.wordType d (String.ofList w) [], String.ofList w, 0, w.length⟩

theorem tokens_alone (h : IsBareWord d w) :
    (TokenStream.ofText d w).all = .ok [token d w, Token.atEnd w.length] := by
  have hword : Piece.next d none (w ++ []) = _ := h.next (by simp) (by simp)
  rw [List.append_nil] at hword
  have hall := (PiecesTo.whole (n := 0) hword).all
  rwa [Nat.zero_add] at hall

theorem pieces (h : IsBareWord d w) (hx : x = '.' ∨ x = '-')
    (hrest : PiecesTo d a last place w.getLast? w.length (x :: r) ts) :
    PiecesTo d a last place none 0 (w ++ x :: r) (token d w :: ts) := by
  have hword : Piece.next d none (w ++ x :: r) = _ := h.next
    (by rcases hx with rfl | rfl <;> simp <;> decide) (by rcases hx with rfl | rfl <;> simp)
  have htype : Lexeme.wordType d (String.ofList w) (x :: r) =
      Lexeme.wordType d (String.ofList w) [] := by
    rcases hx with rfl | rfl <;>
      exact Lexeme.wordType_behind (by decide) (by decide) (by decide)
  rw [htype] at hword
  have hpieces := PiecesTo.front (n := 0) hword (by rwa [Nat.zero_add])
  rwa [Nat.zero_add] at hpieces

/-- The point behind a word is a symbol where the word is seen to end, and otherwise it begins a
number. -/
theorem tokens_point (h : IsBareWord d w) (hne : ds ≠ [])
    (hds : ∀ c ∈ ds, Character.isDigit c = true) :
    (TokenStream.ofText d (w ++ '.' :: ds)).all = .ok (token d w :: if EndsInside w then
      [⟨.literal .float, String.ofList ('.' :: ds), w.length, w.length + (ds.length + 1)⟩,
        Token.atEnd (w.length + (ds.length + 1))]
      else [⟨.symbol .dot, ".", w.length, w.length + 1⟩,
        ⟨.literal .int, String.ofList ds, w.length + 1, w.length + 1 + ds.length⟩,
        Token.atEnd (w.length + 1 + ds.length)]) := by
  obtain ⟨c, tail, rfl⟩ := List.exists_cons_of_ne_nil hne
  have hpoint := Piece.next_point (d := d) (r := tail) w.getLast?
    (hds c List.mem_cons_self)
  by_cases hends : EndsInside w
  · rw [h.last_iff.2 hends, if_neg Bool.false_ne_true, Lexeme.number_point_digits hds] at hpoint
    rw [if_pos hends]
    exact (h.pieces (.inl rfl) (.whole hpoint)).all
  · rw [Bool.of_not_eq_false (mt h.last_iff.1 hends), if_pos rfl] at hpoint
    have hdigits := Piece.next_digits (d := d) (some '.') hne hds
    rw [if_neg hends]
    exact (h.pieces (.inl rfl) (.front (w := ['.']) hpoint (.whole hdigits))).all

/-- So is the minus in front of a point, and then the point begins the number. -/
theorem tokens_minus (h : IsBareWord d w) (hne : ds ≠ [])
    (hds : ∀ c ∈ ds, Character.isDigit c = true) :
    (TokenStream.ofText d (w ++ '-' :: '.' :: ds)).all = .ok (token d w :: if EndsInside w then
      [⟨.literal .float, String.ofList ('-' :: '.' :: ds), w.length, w.length + (ds.length + 2)⟩,
        Token.atEnd (w.length + (ds.length + 2))]
      else [⟨.symbol .minus, "-", w.length, w.length + 1⟩,
        ⟨.literal .float, String.ofList ('.' :: ds), w.length + 1, w.length + 1 + (ds.length + 1)⟩,
        Token.atEnd (w.length + 1 + (ds.length + 1))]) := by
  obtain ⟨c, tail, rfl⟩ := List.exists_cons_of_ne_nil hne
  have hdigit := hds c List.mem_cons_self
  have hminus := Piece.next_minusPoint (d := d) (r := tail) w.getLast? hdigit
  by_cases hends : EndsInside w
  · rw [h.last_iff.2 hends, if_neg Bool.false_ne_true, Lexeme.number_minusPoint_digits hds]
      at hminus
    rw [if_pos hends]
    exact (h.pieces (.inr rfl) (.whole hminus)).all
  · rw [Bool.of_not_eq_false (mt h.last_iff.1 hends), if_pos rfl] at hminus
    have hother : (some '-').any (Piece.beginsWord d.lexis) = false := by cases d <;> decide
    have hpoint := Piece.next_point (d := d) (r := tail) (some '-') hdigit
    rw [hother, if_neg Bool.false_ne_true, Lexeme.number_point_digits hds] at hpoint
    rw [if_neg hends]
    exact (h.pieces (.inr rfl) (.front (w := ['-']) hminus (.whole hpoint))).all

end IsBareWord

/-- Behind a bare word and in front of digits, a point is a symbol, and so is a minus with a point
behind it, exactly if the word does not end with a digit or `#`. Behind such an end they begin a
number. -/
theorem property_dot_iff (hw : IsBareWord d w) (hne : ds ≠ [])
    (hds : ∀ c ∈ ds, Character.isDigit c = true) :
    (TokenStream.ofText d w).all = .ok [IsBareWord.token d w, Token.atEnd w.length] ∧
    ((TokenStream.ofText d (w ++ '.' :: ds)).all = .ok [IsBareWord.token d w,
        ⟨.symbol .dot, ".", w.length, w.length + 1⟩,
        ⟨.literal .int, String.ofList ds, w.length + 1, w.length + 1 + ds.length⟩,
        Token.atEnd (w.length + 1 + ds.length)] ↔ ¬EndsInside w) ∧
    ((TokenStream.ofText d (w ++ '-' :: '.' :: ds)).all = .ok [IsBareWord.token d w,
        ⟨.symbol .minus, "-", w.length, w.length + 1⟩,
        ⟨.literal .float, String.ofList ('.' :: ds), w.length + 1, w.length + 1 + (ds.length + 1)⟩,
        Token.atEnd (w.length + 1 + (ds.length + 1))] ↔ ¬EndsInside w) ∧
    (EndsInside w →
      (TokenStream.ofText d (w ++ '.' :: ds)).all = .ok [IsBareWord.token d w,
        ⟨.literal .float, String.ofList ('.' :: ds), w.length, w.length + (ds.length + 1)⟩,
        Token.atEnd (w.length + (ds.length + 1))] ∧
      (TokenStream.ofText d (w ++ '-' :: '.' :: ds)).all = .ok [IsBareWord.token d w,
        ⟨.literal .float, String.ofList ('-' :: '.' :: ds), w.length, w.length + (ds.length + 2)⟩,
        Token.atEnd (w.length + (ds.length + 2))]) := by
  rw [hw.tokens_point hne hds, hw.tokens_minus hne hds]
  refine ⟨hw.tokens_alone, ?_, ?_, ?_⟩
  · by_cases hends : EndsInside w <;> simp [hends]
  · by_cases hends : EndsInside w <;> simp [hends]
  · intro hends
    rw [if_pos hends, if_pos hends]
    exact ⟨rfl, rfl⟩

/-- The word `order_` is seen to end, and the word `a1` is not. -/
theorem property_dot_iff_ends :
    (TokenStream.ofText .oracle "order_.25".toList).all =
      .ok [⟨.literal .identifier, "order_", 0, 6⟩, ⟨.symbol .dot, ".", 6, 7⟩,
        ⟨.literal .int, "25", 7, 9⟩, Token.atEnd 9] ∧
    (TokenStream.ofText .mysql "a1-.2".toList).all =
      .ok [⟨.literal .identifier, "a1", 0, 2⟩, ⟨.literal .float, "-.2", 2, 5⟩,
        Token.atEnd 5] := by
  have hends := property_dot_iff (d := .oracle) (w := "order_".toList)
    ⟨by decide +kernel, by decide +kernel⟩ (by decide +kernel : "25".toList ≠ [])
    (List.all_eq_true.1 (by decide +kernel))
  have hinside := property_dot_iff (d := .mysql) (w := "a1".toList)
    ⟨by decide +kernel, by decide +kernel⟩ (by decide +kernel : "2".toList ≠ [])
    (List.all_eq_true.1 (by decide +kernel))
  have hword : IsBareWord.token .oracle "order_".toList =
      ⟨.literal .identifier, "order_", 0, 6⟩ := by decide +kernel
  have hword' : IsBareWord.token .mysql "a1".toList =
      ⟨.literal .identifier, "a1", 0, 2⟩ := by decide +kernel
  rw [hword] at hends
  rw [hword'] at hinside
  exact ⟨hends.2.1.2 (by decide +kernel), (hinside.2.2.2 (by decide +kernel)).2⟩

/-- So it is not true of every word that the point behind it is a symbol. -/
theorem property_dot_swallowed : ¬∀ d w ds, IsBareWord d w →
    Lexeme.needsBy (String.ofList w) = false → ds ≠ [] →
    (∀ c ∈ ds, Character.isDigit c = true) →
    (TokenStream.ofText d (w ++ '.' :: ds)).all = .ok [IsBareWord.token d w,
      ⟨.symbol .dot, ".", w.length, w.length + 1⟩,
      ⟨.literal .int, String.ofList ds, w.length + 1, w.length + 1 + ds.length⟩,
      Token.atEnd (w.length + 1 + ds.length)] := by
  intro hall
  have htokens := hall .mysql "a1".toList "2".toList ⟨by decide +kernel, by decide +kernel⟩
    (by decide +kernel) (by decide +kernel) (List.all_eq_true.1 (by decide +kernel))
  revert htokens
  decide +kernel

end SqlFront

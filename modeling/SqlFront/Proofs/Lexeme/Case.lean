import SqlFront.Proofs.Lexeme.Lookahead

/-!
# Letters in either case

Nothing that cuts a text into pieces tells a capital letter from a small one. A text in lower case
has the pieces of the text, in the same places, with their literals in lower case.
-/

set_option autoImplicit false

namespace SqlFront

variable {d : Dialect} {before : Option Char} {rest : List Char} {c q : Char} {x : Lexeme}

/-! ## Characters -/

namespace Character

theorem caseless {α : Type} (p : Char → α)
    (h : ∀ k < 26, p (Char.ofNat (97 + k)) = p (Char.ofNat (65 + k))) (c : Char) :
    p c.toLower = p c := by
  by_cases hc : c.isUpper
  · have hrange : 65 ≤ c.toNat ∧ c.toNat ≤ 90 := by
      simp only [Char.isUpper, decide_eq_true_eq] at hc
      exact ⟨UInt32.le_iff_toNat_le.1 hc.1, UInt32.le_iff_toNat_le.1 hc.2⟩
    have hupper : c = Char.ofNat (65 + (c.toNat - 65)) := by
      rw [show 65 + (c.toNat - 65) = c.toNat by omega, Char.ofNat_toNat]
    have hlower : ∀ k < 26, (Char.ofNat (65 + k)).toLower = Char.ofNat (97 + k) := by decide
    have hk : c.toNat - 65 < 26 := by omega
    calc
      p c.toLower = p (Char.ofNat (97 + (c.toNat - 65))) := by
        rw [← hlower _ hk, ← hupper]
      _ = p (Char.ofNat (65 + (c.toNat - 65))) := h _ hk
      _ = p c := by rw [← hupper]
  · rw [Char.toLower_eq_of_not_isUpper hc]

@[simp] theorem isBlank_toLower (c : Char) : isBlank c.toLower = isBlank c :=
  caseless isBlank (by decide) c

@[simp] theorem isLetter_toLower (c : Char) : isLetter c.toLower = isLetter c :=
  caseless isLetter (by decide) c

@[simp] theorem isDigit_toLower (c : Char) : isDigit c.toLower = isDigit c :=
  caseless isDigit (by decide) c

@[simp] theorem isHexDigit_toLower (c : Char) : isHexDigit c.toLower = isHexDigit c :=
  caseless isHexDigit (by decide) c

@[simp] theorem isSymbol_toLower (c : Char) : isSymbol c.toLower = isSymbol c :=
  caseless isSymbol (by decide) c

@[simp] theorem isWord_toLower (c : Char) : isWord c.toLower = isWord c :=
  caseless isWord (by decide) c

@[simp] theorem isVariable_toLower (c : Char) : isVariable c.toLower = isVariable c :=
  caseless isVariable (by decide) c

theorem toLower_eq_iff (h : isLetter q = false) : c.toLower = q ↔ c = q := by
  constructor
  · rintro rfl
    rw [isLetter_toLower] at h
    exact (toLower_of_not_isLetter h).symm
  · rintro rfl
    exact toLower_of_not_isLetter h

theorem toLower_beq (h : isLetter q = false) : (c.toLower == q) = (c == q) := by
  rw [Bool.eq_iff_iff, beq_iff_eq, beq_iff_eq, toLower_eq_iff h]

end Character

/-! ## Runs of characters -/

abbrev lowered (text : List Char) : List Char := text.map Char.toLower

@[simp] theorem charAt_lowered (n : ℕ) : charAt (lowered rest) n = (charAt rest n).toLower := by
  have hend : endMark.toLower = endMark := by decide
  have hmap := List.getD_map (l := rest) (n := n) (d := endMark) Char.toLower
  rwa [hend] at hmap

theorem comp_toLower {p : Char → Bool} (hp : ∀ c, p c.toLower = p c) : p ∘ Char.toLower = p :=
  funext hp

theorem takeWhile_lowered {p : Char → Bool} (hp : ∀ c, p c.toLower = p c) :
    (lowered rest).takeWhile p = lowered (rest.takeWhile p) := by
  rw [List.takeWhile_map, comp_toLower hp]

theorem dropWhile_lowered {p : Char → Bool} (hp : ∀ c, p c.toLower = p c) :
    (lowered rest).dropWhile p = lowered (rest.dropWhile p) := by
  rw [List.dropWhile_map, comp_toLower hp]

theorem lowered_eq_self {cs : List Char} (h : ∀ c ∈ cs, Character.isLetter c = false) :
    lowered cs = cs := by
  induction cs with
  | nil => rfl
  | cons c cs ih =>
    rw [List.forall_mem_cons] at h
    rw [lowered, List.map_cons, Character.toLower_of_not_isLetter h.1]
    exact congrArg (c :: ·) (ih h.2)

theorem isPrefixOf_lowered {front : List Char} (h : ∀ c ∈ front, Character.isLetter c = false) :
    front.isPrefixOf (lowered rest) = front.isPrefixOf rest := by
  induction front generalizing rest with
  | nil => simp
  | cons q front ih =>
    rw [List.forall_mem_cons] at h
    cases rest with
    | nil => rfl
    | cons c rest =>
      have hc : (q == c.toLower) = (q == c) := by
        rw [Bool.beq_comm, Character.toLower_beq h.1, Bool.beq_comm]
      rw [lowered, List.map_cons, List.isPrefixOf_cons_cons, List.isPrefixOf_cons_cons, hc]
      exact congrArg (q == c && ·) (ih h.2)

/-! ## Ignored text -/

namespace Ignored

theorem blanks_lowered : blanks (lowered rest) = blanks rest := by
  rw [blanks, takeWhile_lowered Character.isBlank_toLower, List.length_map, blanks]

theorem line_lowered (opening : ℕ) : line opening (lowered rest) = line opening rest := by
  have hbody : ∀ c : Char, (c.toLower != '\n' && c.toLower != endMark) =
      (c != '\n' && c != endMark) :=
    Character.caseless (fun c => c != '\n' && c != endMark) (by decide)
  unfold line
  rw [← List.map_drop, takeWhile_lowered hbody]
  simp

theorem closing?_lowered : closing? (lowered rest) = closing? rest := by
  induction rest using closing?.induct with
  | case1 => rfl
  | case2 c => rfl
  | case3 c c' rest hc => simp [closing?, hc]
  | case4 c c' rest hc ih =>
    have hc' : ¬(c.toLower = '*' ∧ c'.toLower = '/') := by
      rwa [Character.toLower_eq_iff (by decide), Character.toLower_eq_iff (by decide)]
    simp only [lowered, List.map_cons] at ih ⊢
    rw [closing?, if_neg hc', closing?, if_neg hc, ih]

theorem block_lowered (opening : ℕ) (cause : LexicalCause) :
    block opening cause (lowered rest) = block opening cause rest := by
  unfold block
  rw [← List.map_drop, closing?_lowered]

theorem comment_lowered : comment (lowered rest) = comment rest := by
  unfold comment
  simp (disch := decide) only [charAt_lowered, Character.toLower_eq_iff, line_lowered,
    block_lowered]

theorem isComment_lowered (lexis : Lexis) :
    isComment lexis (lowered rest) = isComment lexis rest := by
  simp (disch := decide) only [charAt_lowered, Character.toLower_beq, isComment]

theorem hintOpening?_lowered : hintOpening? d.lexis (lowered rest) = hintOpening? d.lexis rest := by
  have hopening : ∀ h : String, d.lexis.hintOpening = some h →
      ∀ c ∈ h.toList, Character.isLetter c = false := by
    cases d <;> rintro h ⟨⟩ <;> simp <;> decide
  unfold hintOpening?
  cases hhint : d.lexis.hintOpening with
  | none => rfl
  | some h => simp only [Option.filter_some, isPrefixOf_lowered (hopening h hhint)]

theorem stretch_lowered : stretch d.lexis (lowered rest) = stretch d.lexis rest := by
  simp only [stretch, hintOpening?_lowered, hint, block_lowered, isComment_lowered, comment_lowered,
    blanks_lowered]

end Ignored

/-! ## Quoted text -/

namespace Quoted

theorem closing?_lowered (hq : Character.isLetter q = false) :
    closing? q (lowered rest) = closing? q rest := by
  have heq : ∀ {c : Char}, c.toLower = q ↔ c = q := Character.toLower_eq_iff hq
  induction rest using closing?.induct q with
  | case1 => rfl
  | case2 c hc => simp [closing?, heq]
  | case3 c hc => simp [closing?, heq]
  | case4 rest ih =>
    have hself : q.toLower = q := heq.2 rfl
    simp [closing?, hself, ih]
  | case5 c' rest hc =>
    have hself : q.toLower = q := heq.2 rfl
    simp [closing?, hself, heq, hc]
  | case6 c c' rest hc ih =>
    simp only [lowered, List.map_cons] at ih ⊢
    rw [closing?, if_neg (mt heq.1 hc), closing?, if_neg hc, ih]

theorem length?_lowered (hq : Character.isLetter q = false) :
    length? q (lowered rest) = length? q rest := by
  unfold length?
  rw [← List.map_tail, closing?_lowered hq]

end Quoted

/-! ## Lexemes -/

def Lexeme.folded (x : Lexeme) : Lexeme :=
  { x with literals := String.ofList (foldCase x.literals) }

namespace Lexeme

@[simp] theorem folded_length (x : Lexeme) : x.folded.length = x.length := rfl

@[simp] theorem folded_type (x : Lexeme) : x.folded.type = x.type := rfl

theorem ofFront_lowered (kind : Literal) (n : ℕ) :
    ofFront kind n (lowered rest) = (ofFront kind n rest).folded := by
  simp [ofFront, folded, foldCase, List.map_take]

theorem variableName_lowered : variableName (lowered rest) = (variableName rest).folded := by
  unfold variableName
  simp (disch := decide) only [charAt_lowered, Character.toLower_eq_iff, ← List.map_drop,
    takeWhile_lowered Character.isVariable_toLower, List.length_map, ofFront_lowered]

theorem startsWithWord_lowered (word : String) :
    startsWithWord word (lowered rest) = startsWithWord word rest := by
  unfold startsWithWord
  rw [charAt_lowered, Character.isWord_toLower, ← List.map_take, List.map_map]
  simp [Function.comp_def]

theorem startsWithBy_lowered : startsWithBy (lowered rest) = startsWithBy rest := by
  unfold startsWithBy
  simp only [dropWhile_lowered Character.isBlank_toLower, startsWithWord_lowered, ← List.map_drop]
  split
  · rw [startsWithWord_lowered]
  · rw [startsWithWord_lowered]

theorem needsBy_eq_of_sameName {a b : String} (h : sameName a b = true) :
    needsBy a = needsBy b := by
  unfold needsBy sameName
  rw [sameName_iff.1 h]

theorem wordType_lowered {word : List Char} {following : List Char} :
    wordType d (String.ofList (lowered word)) (lowered following) =
      wordType d (String.ofList word) following := by
  have hsame : sameName (String.ofList (lowered word)) (String.ofList word) = true := by
    rw [sameName_iff]
    simp [foldCase, Function.comp_def]
  unfold wordType
  rw [startsWithBy_lowered, keyword?_of_sameName hsame, needsBy_eq_of_sameName hsame]

theorem bareWord_lowered : bareWord d (lowered rest) = (bareWord d rest).folded := by
  unfold bareWord
  simp only [takeWhile_lowered Character.isWord_toLower, List.length_map, ← List.map_drop]
  rw [wordType_lowered]
  simp [folded, foldCase]

theorem quotedWord_lowered (hq : Character.isLetter (charAt rest 0) = false) :
    quotedWord (lowered rest) = (quotedWord rest).map folded := by
  have hself := Character.toLower_of_not_isLetter hq
  have hclosing : Character.isLetter (Quoted.terminator (charAt rest 0)) = false := by
    unfold Quoted.terminator
    split
    · decide
    · exact hq
  unfold quotedWord
  simp only [charAt_lowered, hself, Quoted.length?_lowered hclosing]
  split
  · rw [ofFront_lowered]
    rfl
  · rfl

theorem word_lowered : word d (lowered rest) = (word d rest).map folded := by
  have hquote : ∀ c : Char, (c.toLower = '\x60' ∨ c.toLower = '"' ∨ c.toLower = '[') ↔
      (c = '\x60' ∨ c = '"' ∨ c = '[') := by
    intro c
    simp (disch := decide) only [Character.toLower_eq_iff]
  unfold word
  simp only [charAt_lowered, hquote]
  split
  · next hc =>
    refine quotedWord_lowered ?_
    obtain hc | hc | hc := hc <;> rw [hc] <;> decide
  · rw [bareWord_lowered]
    rfl

/-! ## Numbers -/

theorem digits_lowered : digits (lowered rest) = digits rest := by
  rw [digits, takeWhile_lowered Character.isDigit_toLower, List.length_map, digits]

theorem hexNumber_lowered : hexNumber (lowered rest) = (hexNumber rest).folded := by
  unfold hexNumber
  simp (disch := decide) only [charAt_lowered, Character.toLower_eq_iff, ← List.map_drop,
    takeWhile_lowered Character.isHexDigit_toLower, List.length_map, ofFront_lowered]

theorem fractionLength_lowered : fractionLength (lowered rest) = fractionLength rest := by
  unfold fractionLength
  simp (disch := decide) only [charAt_lowered, Character.toLower_eq_iff, ← List.map_drop,
    digits_lowered]

theorem exponentLength_lowered : exponentLength (lowered rest) = exponentLength rest := by
  have hletter : ∀ c : Char, (c.toLower = 'e' ∨ c.toLower = 'E') ↔ (c = 'e' ∨ c = 'E') :=
    fun c => decide_eq_decide.1 (Character.caseless (fun c => decide (c = 'e' ∨ c = 'E'))
      (by decide) c)
  unfold exponentLength
  simp (disch := decide) only [charAt_lowered, hletter, Character.toLower_eq_iff, ← List.map_drop,
    digits_lowered]

theorem suffixLength_lowered : suffixLength (lowered rest) = suffixLength rest := by
  have hletter : ∀ c : Char, (c.toLower = 'f' ∨ c.toLower = 'F' ∨ c.toLower = 'd' ∨
      c.toLower = 'D') ↔ (c = 'f' ∨ c = 'F' ∨ c = 'd' ∨ c = 'D') :=
    fun c => decide_eq_decide.1 (Character.caseless
      (fun c => decide (c = 'f' ∨ c = 'F' ∨ c = 'd' ∨ c = 'D')) (by decide) c)
  unfold suffixLength
  simp only [charAt_lowered, hletter]

theorem number_lowered : number (lowered rest) = (number rest).folded := by
  unfold number
  simp (disch := decide) only [charAt_lowered, Character.toLower_eq_iff, ← List.map_drop,
    digits_lowered, fractionLength_lowered, exponentLength_lowered, suffixLength_lowered,
    ofFront_lowered]

/-! ## Strings and symbols -/

theorem slice_lowered (start stop : ℕ) : slice (lowered rest) start stop =
    String.ofList (foldCase (slice rest start stop)) := by
  simp [slice, foldCase, List.map_take, List.map_drop]

theorem quotedString_lowered (hq : Character.isLetter (charAt rest 0) = false) :
    quotedString (lowered rest) = (quotedString rest).map folded := by
  have hself := Character.toLower_of_not_isLetter hq
  unfold quotedString
  simp only [charAt_lowered, hself, Quoted.length?_lowered hq]
  split
  · rw [slice_lowered]
    rfl
  · rfl

theorem not_isLetter_of_isSymbol (h : Character.isSymbol c = true) :
    Character.isLetter c = false := by
  have hall : Character.symbolCharacters.all (fun s => !Character.isLetter s) = true := by decide
  simpa using List.all_eq_true.1 hall c (List.contains_iff_mem.1 h)

theorem longestSymbol?_lowered {n : ℕ} (h : ∀ c ∈ rest.take n, Character.isSymbol c = true) :
    longestSymbol? (lowered rest) n = longestSymbol? rest n := by
  induction n with
  | zero => rfl
  | succ n ih =>
    have hfront : (lowered rest).take (n + 1) = rest.take (n + 1) := by
      rw [← List.map_take]
      exact lowered_eq_self fun c hc => not_isLetter_of_isSymbol (h c hc)
    have hshorter : ∀ c ∈ rest.take n, Character.isSymbol c = true :=
      fun c hc => h c (List.take_subset_take_left rest (Nat.le_succ n) hc)
    rw [longestSymbol?, longestSymbol?, hfront, ih hshorter]

theorem symbol_lowered (hc : Character.isSymbol (charAt rest 0) = true) :
    symbol (lowered rest) = (symbol rest).map folded := by
  have hself := Character.toLower_of_not_isLetter (not_isLetter_of_isSymbol hc)
  have hrun : (lowered rest).takeWhile Character.isSymbol =
      lowered (rest.takeWhile Character.isSymbol) := takeWhile_lowered Character.isSymbol_toLower
  have hsymbols : ∀ c ∈ rest.take (rest.takeWhile Character.isSymbol).length,
      Character.isSymbol c = true := by
    rw [← List.prefix_iff_eq_take.1 (List.takeWhile_prefix Character.isSymbol)]
    exact fun c => List.mem_takeWhile_imp
  unfold symbol
  simp only [hrun, List.length_map, longestSymbol?_lowered hsymbols, charAt_lowered, hself]
  split
  · simp [folded, foldCase, List.map_take, Except.map]
  · rfl

end Lexeme

/-! ## Pieces -/

def Piece.folded : Piece → Piece
  | .lexeme x => .lexeme x.folded
  | p => p

namespace Piece

theorem beginsWord_lowered (c : Char) : beginsWord d.lexis c.toLower = beginsWord d.lexis c :=
  Character.caseless (beginsWord d.lexis) (by cases d <;> decide) c

theorem beginsNumber_lowered : beginsNumber d.lexis (before.map Char.toLower) (lowered rest) =
    beginsNumber d.lexis before rest := by
  have hbefore : (before.map Char.toLower).any (beginsWord d.lexis) =
      before.any (beginsWord d.lexis) := by
    cases before with
    | none => rfl
    | some c => exact beginsWord_lowered c
  unfold beginsNumber
  simp (disch := decide) only [charAt_lowered, Character.toLower_beq, Character.isDigit_toLower,
    hbefore]

theorem here_lowered {r r' : Except LexicalCause Lexeme} (h : r' = r.map Lexeme.folded) :
    here r' = (here r).map folded := by
  subst h
  cases r <;> rfl

theorem nationalString_lowered (hq : charAt rest 1 = '\'') :
    nationalString (lowered rest) = (nationalString rest).map folded := by
  have hquote : Character.isLetter (charAt (rest.drop 1) 0) = false := by
    rw [charAt_drop, hq]
    decide
  have hstring := Lexeme.quotedString_lowered hquote
  unfold nationalString
  rw [← List.map_drop, hstring]
  cases Lexeme.quotedString (rest.drop 1) <;> rfl

theorem significant_lowered : significant d (before.map Char.toLower) (lowered rest) =
    (significant d before rest).map folded := by
  have hnational : ∀ c : Char, (c.toLower == 'N' || c.toLower == 'n') = (c == 'N' || c == 'n') :=
    Character.caseless (fun c => c == 'N' || c == 'n') (by decide)
  have hhex : ∀ c : Char, (c.toLower == 'x' || c.toLower == 'X') = (c == 'x' || c == 'X') :=
    Character.caseless (fun c => c == 'x' || c == 'X') (by decide)
  unfold significant
  simp (disch := decide) only [charAt_lowered, hnational, hhex, Character.toLower_beq,
    List.isEmpty_map, beginsWord_lowered, beginsNumber_lowered, Character.isSymbol_toLower]
  split_ifs with hvariable hnational hword hhex hnumber hsymbol hquote hempty
  · rw [Lexeme.variableName_lowered]
    rfl
  · rw [Bool.and_eq_true, Bool.and_eq_true, beq_iff_eq] at hnational
    exact nationalString_lowered hnational.2
  · exact here_lowered Lexeme.word_lowered
  · rw [Lexeme.hexNumber_lowered]
    rfl
  · rw [Lexeme.number_lowered]
    rfl
  · exact here_lowered (Lexeme.symbol_lowered hsymbol)
  · refine here_lowered (Lexeme.quotedString_lowered ?_)
    rw [Bool.or_eq_true, beq_iff_eq, beq_iff_eq] at hquote
    obtain hquote | hquote := hquote <;> rw [hquote] <;> decide
  · rfl
  · -- a letter begins a word, so the character that is refused has no case
    have hletter : Character.isLetter (charAt rest 0) = false := by
      by_contra hletter
      rw [Bool.not_eq_false] at hletter
      simp [beginsWord, hletter] at hword
    rw [Character.toLower_of_not_isLetter hletter]
    rfl

theorem next_lowered : next d (before.map Char.toLower) (lowered rest) =
    (next d before rest).map folded := by
  unfold next
  rw [Ignored.stretch_lowered]
  split
  · rfl
  · exact significant_lowered
  · rfl

end Piece

/-! ## Streams -/

def Token.folded (t : Token) : Token := { t with literals := String.ofList (foldCase t.literals) }

namespace TokenStream

def folded (s : TokenStream) : TokenStream := { s with tokens := s.tokens.map Token.folded }

theorem scan_lowered (n offset : ℕ) :
    scan d n (before.map Char.toLower) offset (lowered rest) =
      (scan d n before offset rest).folded := by
  induction n generalizing before offset rest with
  | zero => rfl
  | succ n ih =>
    have hlast : ∀ k, ((lowered rest).take k).getLast? = (rest.take k).getLast?.map Char.toLower :=
      fun k => by rw [← List.map_take, List.getLast?_map]
    rw [scan, scan, Piece.next_lowered]
    cases Piece.next d before rest with
    | error fault => rfl
    | ok p =>
      cases p with
      | atEnd => rfl
      | ignored k =>
        simp only [Except.map, Piece.folded, hlast, ← List.map_drop]
        exact ih _
      | lexeme x =>
        simp only [Except.map, Piece.folded, hlast, Lexeme.folded_length, ← List.map_drop]
        rw [← lowered, ih]
        rfl

/-- The stream of a text in lower case is that of the text. -/
theorem ofText_lowered (text : List Char) : ofText d (lowered text) = (ofText d text).folded := by
  unfold ofText
  rw [List.length_map]
  show scan d text.length ((none : Option Char).map Char.toLower) 0 (lowered text) = _
  exact scan_lowered text.length 0

end TokenStream

/-- The tokens have the same type and the same place, and literals that differ in case at most. -/
structure Token.SameButCase (t u : Token) : Prop where
  type : t.type = u.type
  start : t.start = u.start
  stop : t.stop = u.stop
  literals : sameName t.literals u.literals = true

theorem Token.sameButCase_of_folded {t u : Token} (h : t.folded = u.folded) : t.SameButCase u := by
  obtain ⟨type, literals, start, stop⟩ := t
  obtain ⟨type', literals', start', stop'⟩ := u
  simp only [folded, mk.injEq, String.ofList_inj] at h
  exact ⟨h.1, h.2.2.1, h.2.2.2, sameName_iff.2 h.2.1⟩

theorem forall₂_of_folded {ts us : List Token} (h : ts.map Token.folded = us.map Token.folded) :
    List.Forall₂ Token.SameButCase ts us := by
  rw [← List.forall₂_eq_eq_eq, List.forall₂_map_left_iff, List.forall₂_map_right_iff] at h
  exact h.imp fun _ _ => Token.sameButCase_of_folded

/-- Two texts that differ at most in the case of letters are both refused, for the same reason and
at the same place, or have tokens of the same types at the same places. -/
theorem tokens_caseless {a b : String} (h : sameName a b = true) :
    (∃ fault, (TokenStream.ofText d a.toList).all = .error fault ∧
      (TokenStream.ofText d b.toList).all = .error fault) ∨
    ∃ ts us, (TokenStream.ofText d a.toList).all = .ok ts ∧
      (TokenStream.ofText d b.toList).all = .ok us ∧ List.Forall₂ Token.SameButCase ts us := by
  have hfolded : (TokenStream.ofText d a.toList).folded =
      (TokenStream.ofText d b.toList).folded := by
    rw [← TokenStream.ofText_lowered, ← TokenStream.ofText_lowered]
    exact congrArg (TokenStream.ofText d) (sameName_iff.1 h)
  generalize TokenStream.ofText d a.toList = s at hfolded ⊢
  generalize TokenStream.ofText d b.toList = r at hfolded ⊢
  obtain ⟨ts, ending⟩ := s
  obtain ⟨us, ending'⟩ := r
  simp only [TokenStream.folded, TokenStream.mk.injEq] at hfolded
  obtain ⟨htokens, rfl⟩ := hfolded
  cases ending with
  | error fault => exact .inl ⟨fault, rfl, rfl⟩
  | ok last =>
    refine .inr ⟨_, _, rfl, rfl, ?_⟩
    have hlast : Token.SameButCase last last := ⟨rfl, rfl, rfl, sameName_refl _⟩
    exact List.rel_append (forall₂_of_folded htokens) (.cons hlast .nil)

/-- A word that looks ahead, a national string and a hexadecimal number in either case. -/
theorem tokens_caseless_words :
    sameName "select N'x' from T Order bY 0Xff" "SELECT n'X' FROM t oRDER By 0xFF" = true ∧
    ((∃ fault,
        (TokenStream.ofText .sqlserver "select N'x' from T Order bY 0Xff".toList).all =
          .error fault ∧
        (TokenStream.ofText .sqlserver "SELECT n'X' FROM t oRDER By 0xFF".toList).all =
          .error fault) ∨
      ∃ ts us,
        (TokenStream.ofText .sqlserver "select N'x' from T Order bY 0Xff".toList).all = .ok ts ∧
        (TokenStream.ofText .sqlserver "SELECT n'X' FROM t oRDER By 0xFF".toList).all = .ok us ∧
        List.Forall₂ Token.SameButCase ts us) := by
  have hsame : sameName "select N'x' from T Order bY 0Xff" "SELECT n'X' FROM t oRDER By 0xFF" =
      true := by decide +kernel
  exact ⟨hsame, tokens_caseless hsame⟩

end SqlFront

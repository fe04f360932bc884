import SqlFront.Proofs.Lexeme.Behind
import SqlFront.Proofs.Lexeme.Lookahead

/-!
# Bare words

A bare word runs as far as characters of words do. It is the keyword that it spells in any case, if
the dialect has the keyword, and `ORDER` and `GROUP` are keywords in front of `BY` only. Every other
bare word is an identifier.
-/

set_option autoImplicit false

namespace SqlFront

variable {d : Dialect} {before last : Option Char} {k : Keyword} {word : String} {c : Char}
  {text rest behind w : List Char}

/-! ## The keyword of a word -/

namespace Keyword

theorem mem_all (k : Keyword) : k ∈ all := by cases k <;> decide +kernel

theorem nodup_spelling : (all.map spelling).Nodup := by decide +kernel

theorem spelling_injective : Function.Injective spelling := fun a b h =>
  List.inj_on_of_nodup_map nodup_spelling a.mem_all b.mem_all h

theorem upperCase_spelling (k : Keyword) : upperCase k.spelling = k.spelling := by
  have hall : ∀ k ∈ all, upperCase k.spelling = k.spelling := by decide +kernel
  exact hall k k.mem_all

end Keyword

theorem sameName_upperCase (word : String) : sameName word (upperCase word) = true := by
  rw [sameName_iff, foldCase, foldCase, upperCase, String.toList_ofList, List.map_map]
  exact List.map_congr_left fun c _ => (Char.toLower_toUpper_eq_toLower c).symm

theorem Dialect.keyword?_eq_some_iff :
    d.keyword? word = some k ↔ sameName word k.spelling = true ∧ k ∈ d.vocabulary := by
  constructor
  · intro h
    rw [keyword?] at h
    have hspelling : k.spelling = upperCase word := by simpa using List.find?_some h
    exact ⟨hspelling ▸ sameName_upperCase word, List.mem_of_find?_eq_some h⟩
  · rintro ⟨hname, hk⟩
    rw [keyword?_of_sameName hname, keyword?]
    have hfound : ∃ k',
        d.vocabulary.find? (fun k' => k'.spelling == upperCase k.spelling) = some k' :=
      Option.isSome_iff_exists.1
        (List.find?_isSome.2 ⟨k, hk, beq_iff_eq.2 k.upperCase_spelling.symm⟩)
    obtain ⟨k', hk'⟩ := hfound
    have hspelling : k'.spelling = k.spelling := by
      simpa [Keyword.upperCase_spelling] using List.find?_some hk'
    rwa [Keyword.spelling_injective hspelling] at hk'

/-! ## Words in front -/

structure WholeWord (word : String) (text behind : List Char) : Prop where
  spelled : ∃ w, text = w ++ behind ∧ sameName (String.ofList w) word = true
  ends : ∀ c ∈ behind.head?, Character.isWord c = false

inductive LeadsToBy : List Char → Prop
  | plain {blanks text behind : List Char} : (∀ c ∈ blanks, Character.isBlank c = true) →
      WholeWord "BY" text behind → LeadsToBy (blanks ++ text)
  | siblings {blanks text blanks' text' behind : List Char} :
      (∀ c ∈ blanks, Character.isBlank c = true) → WholeWord "SIBLINGS" text (blanks' ++ text') →
      blanks' ≠ [] → (∀ c ∈ blanks', Character.isBlank c = true) → WholeWord "BY" text' behind →
      LeadsToBy (blanks ++ text)

theorem not_isWord_charAt_iff :
    Character.isWord (charAt rest 0) = false ↔ ∀ c ∈ rest.head?, Character.isWord c = false := by
  cases rest with
  | nil => simpa [charAt] using (by decide : Character.isWord endMark = false)
  | cons c rest => simp [charAt]

theorem Lexeme.wholeWord_of_startsWithWord (h : startsWithWord word text = true) :
    WholeWord word text (text.drop word.length) := by
  simp only [startsWithWord, Bool.and_eq_true, beq_iff_eq, Bool.not_eq_true'] at h
  obtain ⟨hfold, hstop⟩ := h
  refine ⟨⟨text.take word.length, (List.take_append_drop _ _).symm, ?_⟩, ?_⟩
  · rw [sameName_iff, ← hfold, foldCase, String.toList_ofList]
  · rw [← not_isWord_charAt_iff]
    simpa [charAt, List.getD_eq_getElem?_getD] using hstop

namespace WholeWord

theorem startsWith (h : WholeWord word text behind) :
    Lexeme.startsWithWord word text = true ∧ text.drop word.length = behind := by
  obtain ⟨⟨w, rfl, hname⟩, hends⟩ := h
  have hfold : w.map Char.toLower = foldCase word := by
    rw [← sameName_iff.1 hname, foldCase, String.toList_ofList]
  have hlength : word.length = w.length := by
    rw [← Lexeme.length_foldCase, ← hfold, List.length_map]
  have hstop : charAt (w ++ behind) w.length = charAt behind 0 := by
    simp [charAt, List.getD_eq_getElem?_getD, List.getElem?_append_right]
  constructor
  · rw [Lexeme.startsWithWord, hlength, hstop, List.take_left, hfold, not_isWord_charAt_iff.2 hends]
    simp
  · rw [hlength, List.drop_left]

theorem first {x : Char} (h : WholeWord word text behind) (hx : (foldCase word).head? = some x) :
    ∃ c rest, text = c :: rest ∧ c.toLower = x := by
  obtain ⟨⟨w, rfl, hname⟩, -⟩ := h
  rw [← sameName_iff.1 hname, foldCase, String.toList_ofList, List.head?_map] at hx
  obtain ⟨c, hc, rfl⟩ := Option.map_eq_some_iff.1 hx
  obtain ⟨w, rfl⟩ := List.head?_eq_some_iff.1 hc
  exact ⟨c, w ++ behind, rfl, rfl⟩

/-- What is in front of a word that begins with a letter are the blanks. -/
theorem skip {x : Char} {blanks : List Char} (h : WholeWord word text behind)
    (hx : (foldCase word).head? = some x) (hblank : Character.isBlank x = false)
    (hbs : ∀ c ∈ blanks, Character.isBlank c = true) :
    (blanks ++ text).dropWhile Character.isBlank = text := by
  obtain ⟨c, rest, rfl, rfl⟩ := h.first hx
  have hc : Character.isBlank c = false := by
    rw [Bool.eq_false_iff]
    intro hc
    rw [Character.toLower_of_isBlank hc, hc] at hblank
    cases hblank
  rw [List.dropWhile_append_of_pos hbs, List.dropWhile_cons_of_neg (by simp [hc])]

end WholeWord

theorem Lexeme.startsWithBy_iff : startsWithBy rest = true ↔ LeadsToBy rest := by
  have hsplit : ∀ text : List Char, text = text.takeWhile Character.isBlank ++
      text.dropWhile Character.isBlank := fun text => List.takeWhile_append_dropWhile.symm
  have hblanks : ∀ text : List Char, ∀ c ∈ text.takeWhile Character.isBlank,
      Character.isBlank c = true := fun text c hc => List.mem_takeWhile_imp hc
  constructor
  · intro h
    rw [hsplit rest]
    simp only [startsWithBy] at h
    by_cases hs : startsWithWord "SIBLINGS" (rest.dropWhile Character.isBlank) = true
    · rw [if_pos hs] at h
      have hword := wholeWord_of_startsWithWord hs
      generalize (rest.dropWhile Character.isBlank).drop "SIBLINGS".length = more at h hword
      rw [hsplit more] at hword
      refine .siblings (hblanks rest) hword ?_ (hblanks more) (wholeWord_of_startsWithWord h)
      -- Without blanks between them `SIBLINGS` would go on with the letters of `BY`.
      intro hnil
      obtain ⟨c, tail, hc, hb⟩ := (wholeWord_of_startsWithWord h).first (x := 'b') (by decide)
      have hends := hword.ends c (by rw [hnil, hc]; rfl)
      have hcase := Character.eq_toLower_or_eq_toUpper c
      rw [hb] at hcase
      rcases hcase with rfl | rfl <;> exact absurd hends (by decide)
    · rw [if_neg hs] at h
      exact .plain (hblanks rest) (wholeWord_of_startsWithWord h)
  · intro h
    cases h with
    | @plain blanks text behind hbs hby =>
      have hskip := hby.skip (x := 'b') (by decide) (by decide) hbs
      have hnot : ¬startsWithWord "SIBLINGS" text = true := by
        intro hs
        obtain ⟨c, _, rfl, hc⟩ := hby.first (x := 'b') (by decide)
        obtain ⟨_, _, heq, hc'⟩ := (wholeWord_of_startsWithWord hs).first (x := 's') (by decide)
        rw [← (List.cons.inj heq).1, hc] at hc'
        exact absurd hc' (by decide)
      simp only [startsWithBy, hskip, if_neg hnot]
      exact hby.startsWith.1
    | @siblings blanks text blanks' text' behind hbs hs _ hbs' hby =>
      have hskip := hs.skip (x := 's') (by decide) (by decide) hbs
      have hskip' := hby.skip (x := 'b') (by decide) (by decide) hbs'
      obtain ⟨hfound, hdrop⟩ := hs.startsWith
      simp only [startsWithBy, hskip, if_pos hfound, hdrop, hskip']
      exact hby.startsWith.1

/-! ## Types -/

structure Dialect.Names (d : Dialect) (k : Keyword) (word : String) (behind : List Char) :
    Prop where
  spelled : sameName word k.spelling = true
  known : k ∈ Keyword.shared ∨ k ∈ d.keywords
  leads : k = .ORDER ∨ k = .GROUP → LeadsToBy behind

theorem Keyword.eq_of_sameName {k k' : Keyword} (h : sameName word k.spelling = true)
    (h' : sameName word k'.spelling = true) : k = k' := by
  apply spelling_injective
  rw [← upperCase_spelling k, ← upperCase_spelling k', ← upperCase_eq_of_sameName h,
    ← upperCase_eq_of_sameName h']

theorem Lexeme.needsBy_iff (h : sameName word k.spelling = true) :
    needsBy word = true ↔ k = .ORDER ∨ k = .GROUP := by
  rw [needsBy, Bool.or_eq_true]
  constructor
  · rintro (hname | hname)
    · exact .inl (Keyword.eq_of_sameName h hname)
    · exact .inr (Keyword.eq_of_sameName h hname)
  · rintro (rfl | rfl)
    · exact .inl h
    · exact .inr h

/-- The type of a word is a keyword exactly if the word names it. -/
theorem Lexeme.wordType_eq_keyword_iff :
    wordType d word behind = .keyword k ↔ d.Names k word behind := by
  constructor
  · intro h
    have hlooks : ¬(needsBy word && !startsWithBy behind) = true := by
      intro hlooks
      rw [wordType, if_pos hlooks] at h
      cases h
    rw [wordType, if_neg hlooks] at h
    have hfound : d.keyword? word = some k := by
      cases hfound : d.keyword? word with
      | none => simp [hfound] at h
      | some k' => simpa [hfound] using h
    obtain ⟨hname, hk⟩ := Dialect.keyword?_eq_some_iff.1 hfound
    refine ⟨hname, List.mem_append.1 hk, fun hneeds => ?_⟩
    rw [(needsBy_iff hname).2 hneeds] at hlooks
    exact startsWithBy_iff.1 (by simpa using hlooks)
  · rintro ⟨hname, hk, hleads⟩
    have hlooks : ¬(needsBy word && !startsWithBy behind) = true := by
      intro hlooks
      rw [Bool.and_eq_true] at hlooks
      have hby := startsWithBy_iff.2 (hleads ((needsBy_iff hname).1 hlooks.1))
      rw [hby] at hlooks
      cases hlooks.2
    rw [wordType, if_neg hlooks,
      Dialect.keyword?_eq_some_iff.2 ⟨hname, List.mem_append.2 hk⟩]

/-- The type of a bare word by looks into the vocabulary, of which the one for a word in front of
`BY` fails at a word that is not registered. -/
def Lexeme.findType (d : Dialect) (word : String) (following : List Char) :
    Except Fault TokenType :=
  if needsBy word then
    if startsWithBy following then (d.requireKeyword word).map .keyword
    else .ok (.literal .identifier)
  else .ok (match d.keyword? word with
    | some k => .keyword k
    | none => .literal .identifier)

/-- Every dialect registers the words that are looked up so. -/
theorem Lexeme.findType_eq : findType d word behind = .ok (wordType d word behind) := by
  unfold findType wordType
  cases hneeds : needsBy word with
  | false => rfl
  | true =>
    obtain ⟨k, hk⟩ := keyword?_of_needsBy (d := d) hneeds
    cases startsWithBy behind with
    | false => rfl
    | true => simp [Dialect.requireKeyword, hk, Except.map]

/-! ## Bare words in a text -/

structure BeginsBare (d : Dialect) (rest : List Char) : Prop where
  begins : Piece.beginsWord d.lexis (charAt rest 0) = true
  bare : charAt rest 0 ∉ ['\x60', '"', '[']
  plain : ¬(d.lexis.nationalStrings = true ∧ (charAt rest 0 = 'N' ∨ charAt rest 0 = 'n') ∧
    charAt rest 1 = '\'')

theorem BeginsBare.isWord (h : BeginsBare d (c :: rest)) : Character.isWord c = true := by
  have hbare : c ∉ ['\x60', '"', '['] := h.bare
  exact Lexeme.isWord_of_beginsWord h.begins (by simpa using hbare)

theorem exists_cons_of_beginsWord (h : Piece.beginsWord d.lexis (charAt rest 0) = true) :
    ∃ c tail, rest = c :: tail := by
  apply List.exists_cons_of_ne_nil
  rintro rfl
  cases d <;> revert h <;> decide

/-- A word that begins here is bare, whatever is in front of it. -/
theorem Piece.next_bareWord (h : BeginsBare d rest) :
    next d before rest = .ok (.lexeme (Lexeme.bareWord d rest)) := by
  obtain ⟨c, tail, rfl⟩ := exists_cons_of_beginsWord h.begins
  have hfirst : charAt (c :: tail) 0 = c := rfl
  have hword : Character.isWord c = true := h.isWord
  have hbegins : beginsWord d.lexis c = true := h.begins
  have hother : ∀ x, beginsWord d.lexis x = false → c ≠ x := by
    rintro x hx rfl
    rw [hbegins] at hx
    cases hx
  have hblank : Character.isBlank c = false := by
    rw [Bool.eq_false_iff]
    intro hc
    rw [Character.not_isWord_of_isBlank hc] at hword
    cases hword
  have hstretch : Ignored.stretch d.lexis (c :: tail) = .ok 0 := by
    apply Ignored.stretch_zero hblank
    simp only [List.mem_cons, List.not_mem_nil, or_false]
    rintro (hc | hc | hc) <;> exact hother _ (by cases d <;> decide) hc
  have hat : beginsWord d.lexis '@' = false := by cases d <;> decide
  have hquotes : ¬(c = '\x60' ∨ c = '"' ∨ c = '[') := by
    have hbare : c ∉ ['\x60', '"', '['] := h.bare
    simpa using hbare
  have hplain : (d.lexis.nationalStrings && (c == 'N' || c == 'n') &&
      charAt (c :: tail) 1 == '\'') = false := by
    rw [Bool.eq_false_iff]
    intro hnational
    simp only [Bool.and_eq_true, Bool.or_eq_true, beq_iff_eq, and_assoc] at hnational
    exact h.plain hnational
  rw [next, hstretch]
  simp only [significant, hfirst, beq_eq_false_iff_ne.2 (hother '@' hat), Bool.and_false, hplain,
    hbegins, if_true, Bool.false_eq_true, if_false, Lexeme.word, hquotes, here]

/-- A bare word runs up to the first character that is in no word. It is a keyword exactly if it
spells one that the dialect has, in front of `BY` for two of them, and otherwise an identifier; the
look for its type does not fail. -/
theorem bareWord_read (h : BeginsBare d rest) :
    ∃ w behind t, rest = w ++ behind ∧ w ≠ [] ∧ (∀ c ∈ w, Character.isWord c = true) ∧
      (∀ c ∈ behind.head?, Character.isWord c = false) ∧
      (∀ before, Piece.next d before rest = .ok (.lexeme ⟨t, String.ofList w, w.length⟩)) ∧
      (∀ last place text ts, PiecesTo d rest last place none 0 text ts →
        TokenStream.GoesOn d text ts place ⟨t, String.ofList w, w.length⟩ w.getLast? behind) ∧
      Lexeme.findType d (String.ofList w) behind = .ok t ∧
      (∀ k, t = .keyword k ↔ d.Names k (String.ofList w) behind) ∧
      ((¬∃ k, d.Names k (String.ofList w) behind) → t = .literal .identifier) := by
  obtain ⟨c, tail, rfl⟩ := exists_cons_of_beginsWord h.begins
  generalize hw : (c :: tail).takeWhile Character.isWord = w
  generalize hbehind : (c :: tail).dropWhile Character.isWord = behind
  have hsplit : c :: tail = w ++ behind := by
    rw [← hw, ← hbehind, List.takeWhile_append_dropWhile]
  have hnext : ∀ before, Piece.next d before (c :: tail) = .ok (.lexeme
      ⟨Lexeme.wordType d (String.ofList w) behind, String.ofList w, w.length⟩) := by
    intro before
    rw [Piece.next_bareWord h, Lexeme.bareWord, hw, hsplit, List.drop_left]
  refine ⟨w, behind, Lexeme.wordType d (String.ofList w) behind, hsplit, ?_, ?_, ?_, hnext, ?_,
    Lexeme.findType_eq, fun _ => Lexeme.wordType_eq_keyword_iff, ?_⟩
  · rw [← hw, List.takeWhile_cons_of_pos h.isWord]
    exact List.cons_ne_nil _ _
  · intro x hx
    rw [← hw] at hx
    exact List.mem_takeWhile_imp hx
  · intro x hx
    have hstop := List.head?_dropWhile_not Character.isWord (c :: tail)
    rw [hbehind] at hstop
    rw [Option.mem_def] at hx
    simpa [hx] using hstop
  · intro last place text ts hpieces
    have hgoes := hpieces.goesOn (hnext last)
    rwa [hsplit, List.take_left, List.drop_left] at hgoes
  · intro hnone
    rcases Lexeme.wordType_cases d (String.ofList w) behind with htype | ⟨k, htype⟩
    · exact htype
    · exact (hnone ⟨k, Lexeme.wordType_eq_keyword_iff.1 htype⟩).elim

/-- `BY` is found behind `SIBLINGS`, and not where another word begins with it. -/
theorem bareWord_read_by :
    Piece.next .oracle none "order siblings\tby x".toList =
      .ok (.lexeme ⟨.keyword .ORDER, "order", 5⟩) ∧ LeadsToBy " siblings\tby x".toList ∧
    Piece.next .mysql none "GROUP BYTES".toList =
      .ok (.lexeme ⟨.literal .identifier, "GROUP", 5⟩) ∧ ¬LeadsToBy " BYTES".toList := by
  have horder : Piece.next .oracle none "order siblings\tby x".toList =
      .ok (.lexeme ⟨.keyword .ORDER, "order", 5⟩) := by decide +kernel
  have hgroup : Piece.next .mysql none "GROUP BYTES".toList =
      .ok (.lexeme ⟨.literal .identifier, "GROUP", 5⟩) := by decide +kernel
  refine ⟨horder, ?_, hgroup, fun hleads => ?_⟩
  · have h : BeginsBare .oracle "order siblings\tby x".toList :=
      ⟨by decide +kernel, by decide +kernel, by decide +kernel⟩
    obtain ⟨w, behind, t, hsplit, -, -, -, hnext, -, -, hkeyword, -⟩ := bareWord_read h
    rw [hnext none, Except.ok.injEq, Piece.lexeme.injEq, Lexeme.mk.injEq] at horder
    obtain ⟨rfl, hw, -⟩ := horder
    obtain rfl : w = "order".toList := String.toList_ofList.symm.trans (congrArg String.toList hw)
    obtain rfl : " siblings\tby x".toList = behind := congrArg (List.drop 5) hsplit
    exact ((hkeyword .ORDER).1 rfl).leads (.inl rfl)
  · have h : BeginsBare .mysql "GROUP BYTES".toList :=
      ⟨by decide +kernel, by decide +kernel, by decide +kernel⟩
    obtain ⟨w, behind, t, hsplit, -, -, -, hnext, -, -, hkeyword, -⟩ := bareWord_read h
    rw [hnext none, Except.ok.injEq, Piece.lexeme.injEq, Lexeme.mk.injEq] at hgroup
    obtain ⟨rfl, hw, -⟩ := hgroup
    obtain rfl : w = "GROUP".toList := String.toList_ofList.symm.trans (congrArg String.toList hw)
    obtain rfl : " BYTES".toList = behind := congrArg (List.drop 5) hsplit
    have hnames : Dialect.mysql.Names .GROUP (String.ofList "GROUP".toList) " BYTES".toList :=
      ⟨by decide, by decide, fun _ => hleads⟩
    cases (hkeyword .GROUP).2 hnames

end SqlFront

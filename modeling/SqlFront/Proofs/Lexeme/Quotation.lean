import SqlFront.Proofs.StringLiteral

/-!
# Quoted texts

Between its quotes a quoted text has any characters, the closing one in pairs only. A text ends such
a quoted text in one place at most, and what is read is the text up to there. Where there is no such
place, the fault is at the opening quote.
-/

set_option autoImplicit false

namespace SqlFront

variable {q c o : Char} {s text tail body body' behind behind' rest : List Char} {n place : ℕ}

namespace Quoted

/-! ## The end of a quoted text -/

inductive Body (q : Char) : List Char → Prop
  | nil : Body q []
  | other {c : Char} {body : List Char} : c ≠ q → Body q body → Body q (c :: body)
  | pair {body : List Char} : Body q body → Body q (q :: q :: body)

structure Terminated (q : Char) (text body behind : List Char) : Prop where
  split : text = body ++ q :: behind
  inner : Body q body
  alone : behind.head? ≠ some q

theorem body_doubled : Body q (doubled q s) := by
  induction s with
  | nil => exact .nil
  | cons c s ih =>
    rw [doubled]
    split
    · exact .pair ih
    · next hc => exact .other hc ih

theorem body_iff_doubled : Body q body ↔ ∃ s, body = doubled q s := by
  constructor
  · intro h
    induction h with
    | nil => exact ⟨[], rfl⟩
    | @other c _ hc _ ih =>
      obtain ⟨s, rfl⟩ := ih
      exact ⟨c :: s, by rw [doubled, if_neg hc]⟩
    | pair _ ih =>
      obtain ⟨s, rfl⟩ := ih
      exact ⟨q :: s, by rw [doubled, if_pos rfl]⟩
  · rintro ⟨s, rfl⟩
    exact body_doubled

theorem terminated_doubled (hrest : rest.head? ≠ some q) :
    Terminated q (doubled q s ++ q :: rest) (doubled q s) rest := ⟨rfl, body_doubled, hrest⟩

theorem Terminated.closing?_eq (h : Terminated q text body behind) (hq : q ≠ endMark) :
    closing? q text = some (body.length + 1) := by
  obtain ⟨s, rfl⟩ := body_iff_doubled.1 h.inner
  rw [h.split]
  exact closing?_doubled_append hq h.alone

theorem terminated_of_closing? (h : closing? q text = some n) :
    ∃ body behind, Terminated q text body behind ∧ n = body.length + 1 := by
  induction text using closing?.induct q generalizing n with
  | case1 => cases h
  | case2 c hc =>
    obtain rfl : 1 = n := by simpa [closing?, hc] using h
    exact ⟨[], [], ⟨by simp [hc.1], .nil, by simp⟩, rfl⟩
  | case3 c hc => simp [closing?, hc] at h
  | case4 text ih =>
    simp only [closing?, if_true] at h
    obtain ⟨m, hm, rfl⟩ := Option.map_eq_some_iff.1 h
    obtain ⟨body, behind, hend, rfl⟩ := ih hm
    exact ⟨q :: q :: body, behind, ⟨by rw [hend.split]; rfl, .pair hend.inner, hend.alone⟩, rfl⟩
  | case5 c text hc =>
    obtain rfl : 1 = n := by simpa [closing?, hc] using h
    exact ⟨[], c :: text, ⟨rfl, .nil, by simpa using hc⟩, rfl⟩
  | case6 c c' text hc ih =>
    simp only [closing?, if_neg hc] at h
    obtain ⟨m, hm, rfl⟩ := Option.map_eq_some_iff.1 h
    obtain ⟨body, behind, hend, rfl⟩ := ih hm
    exact ⟨c :: body, behind, ⟨by rw [hend.split]; rfl, .other hc hend.inner, hend.alone⟩, rfl⟩

theorem closing?_eq_none (h : ¬∃ body behind, Terminated q text body behind) :
    closing? q text = none := by
  rw [Option.eq_none_iff_forall_ne_some]
  intro n hn
  obtain ⟨body, behind, hend, -⟩ := terminated_of_closing? hn
  exact h ⟨body, behind, hend⟩

/-- A text ends a quoted text in one place only. -/
theorem Terminated.unique (hq : q ≠ endMark) (h : Terminated q text body behind)
    (h' : Terminated q text body' behind') : body' = body ∧ behind' = behind := by
  have hlength : body'.length = body.length := by
    have heq := (h'.closing?_eq hq).symm.trans (h.closing?_eq hq)
    simpa using heq
  obtain ⟨hbody, hbehind⟩ := List.append_inj (h'.split.symm.trans h.split) hlength
  exact ⟨hbody, (List.cons.inj hbehind).2⟩

/-! ## Reading up to the end -/

inductive OpeningQuote : Char → Literal → Prop
  | identifier {o : Char} : o ∈ ['\x60', '"', '['] → OpeningQuote o .identifier
  | string {o : Char} : o ∈ ['\'', '"'] → OpeningQuote o .chars

def readQuotation (kind : Literal) (rest : List Char) : Except LexicalCause Lexeme :=
  if kind = .chars then Lexeme.quotedString rest else Lexeme.quotedWord rest

def quotation (kind : Literal) (o : Char) (body : List Char) : Lexeme :=
  ⟨.literal kind, String.ofList (if kind = .chars then body else o :: (body ++ [terminator o])),
    body.length + 2⟩

variable {kind : Literal}

theorem OpeningQuote.terminator_ne (ho : OpeningQuote o kind) : terminator o ≠ endMark := by
  cases ho with
  | identifier ho =>
    simp only [List.mem_cons, List.not_mem_nil, or_false] at ho
    rcases ho with rfl | rfl | rfl <;> decide
  | string ho =>
    simp only [List.mem_cons, List.not_mem_nil, or_false] at ho
    rcases ho with rfl | rfl <;> decide

theorem terminator_of_string (ho : o ∈ ['\'', '"']) : terminator o = o := by
  simp only [List.mem_cons, List.not_mem_nil, or_false] at ho
  rcases ho with rfl | rfl <;> rfl

theorem readQuotation_terminated (ho : OpeningQuote o kind)
    (h : Terminated (terminator o) tail body behind) :
    readQuotation kind (o :: tail) = .ok (quotation kind o body) := by
  have hlength : length? (terminator o) (o :: tail) = some (body.length + 2) := by
    rw [length?, List.tail_cons, h.closing?_eq ho.terminator_ne]
    rfl
  have hfirst : charAt (o :: tail) 0 = o := rfl
  cases ho with
  | identifier ho =>
    have htake : (o :: tail).take (body.length + 2) = o :: (body ++ [terminator o]) := by
      simp [h.split, List.take_append]
    simp only [readQuotation, reduceCtorEq, if_false, Lexeme.quotedWord, hfirst, hlength,
      Lexeme.ofFront, htake, quotation]
  | string ho =>
    have hq := terminator_of_string ho
    have hslice : slice (o :: tail) 1 (body.length + 2 - 1) = String.ofList body := by
      simp [slice, h.split]
    rw [hq] at hlength
    simp only [readQuotation, if_true, Lexeme.quotedString, hfirst, hlength, hslice, quotation]

theorem readQuotation_unterminated (ho : OpeningQuote o kind)
    (h : ¬∃ body behind, Terminated (terminator o) tail body behind) :
    readQuotation kind (o :: tail) = .error (.missingTerminator (terminator o)) := by
  have hlength : length? (terminator o) (o :: tail) = none := by
    rw [length?, List.tail_cons, closing?_eq_none h]
    rfl
  have hfirst : charAt (o :: tail) 0 = o := rfl
  cases ho with
  | identifier ho =>
    simp only [readQuotation, reduceCtorEq, if_false, Lexeme.quotedWord, hfirst, hlength]
  | string ho =>
    rw [terminator_of_string ho] at hlength ⊢
    simp only [readQuotation, if_true, Lexeme.quotedString, hfirst, hlength]

end Quoted

open Quoted

variable {kind : Literal} {d : Dialect} {before last : Option Char} {ts : List Token}

/-- Where the dialect takes the character for a quote of this kind, the quoted text is next. -/
theorem Piece.next_opening (ho : OpeningQuote o kind)
    (hd : beginsWord d.lexis o = true ↔ kind = .identifier) :
    next d before (o :: tail) = here (readQuotation kind (o :: tail)) := by
  have hchars : kind = .chars → beginsWord d.lexis o = false := by
    rintro rfl
    simpa using hd
  cases ho with
  | identifier ho =>
    have hbegins := hd.2 rfl
    simp only [List.mem_cons, List.not_mem_nil, or_false] at ho
    rcases ho with rfl | rfl | rfl <;>
      (rw [next, Ignored.stretch_zero (by decide) (by decide)]
       cases d <;> first | rfl | exact absurd hbegins (by decide))
  | string ho =>
    have hbegins := hchars rfl
    simp only [List.mem_cons, List.not_mem_nil, or_false] at ho
    rcases ho with rfl | rfl <;>
      (rw [next, Ignored.stretch_zero (by decide) (by decide)]
       cases d <;> first | rfl | exact absurd hbegins (by decide))

theorem PiecesTo.quoted (h : PiecesTo d (o :: tail) last place none 0 text ts)
    (ho : OpeningQuote o kind) (hd : Piece.beginsWord d.lexis o = true ↔ kind = .identifier)
    (hend : Terminated (terminator o) tail body behind) :
    TokenStream.GoesOn d text ts place (quotation kind o body) (some (terminator o)) behind := by
  have hnext : Piece.next d last (o :: tail) = .ok (.lexeme (quotation kind o body)) := by
    rw [Piece.next_opening ho hd, readQuotation_terminated ho hend]
    rfl
  have hsplit : o :: tail = (o :: (body ++ [terminator o])) ++ behind := by simp [hend.split]
  have hlength : (quotation kind o body).length = (o :: (body ++ [terminator o])).length := by
    simp [quotation]
  have hgoes := h.goesOn hnext
  rw [hlength, hsplit, List.take_left, List.drop_left] at hgoes
  have hlast : (o :: (body ++ [terminator o])).getLast? = some (terminator o) := by
    rw [← List.cons_append, List.getLast?_concat]
  rwa [hlast] at hgoes

/-- A quoted text is read exactly up to its end, which is the only one, and without an end it is a
fault at its opening. Wherever a token begins with such an opening, it is that text. A text with its
closing quotes doubled has its end where it ends itself. -/
theorem quoted_read (ho : OpeningQuote o kind) (tail : List Char) :
    ((∃ x, readQuotation kind (o :: tail) = .ok x) ↔
      ∃ body behind, Terminated (terminator o) tail body behind) ∧
    (∀ body behind, Terminated (terminator o) tail body behind →
      readQuotation kind (o :: tail) = .ok (quotation kind o body) ∧
      ∀ body' behind', Terminated (terminator o) tail body' behind' →
        body' = body ∧ behind' = behind) ∧
    ((¬∃ body behind, Terminated (terminator o) tail body behind) →
      readQuotation kind (o :: tail) = .error (.missingTerminator (terminator o))) ∧
    (∀ s rest, rest.head? ≠ some (terminator o) →
      tail = doubled (terminator o) s ++ terminator o :: rest →
      Terminated (terminator o) tail (doubled (terminator o) s) rest) ∧
    (∀ d last place text ts, PiecesTo d (o :: tail) last place none 0 text ts →
      (Piece.beginsWord d.lexis o = true ↔ kind = .identifier) →
      (∀ body behind, Terminated (terminator o) tail body behind →
        TokenStream.GoesOn d text ts place (quotation kind o body) (some (terminator o)) behind) ∧
      ((¬∃ body behind, Terminated (terminator o) tail body behind) →
        TokenStream.ofText d text = ⟨ts, .error ⟨place, .missingTerminator (terminator o)⟩⟩)) := by
  refine ⟨⟨?_, ?_⟩, ?_, readQuotation_unterminated ho, ?_, ?_⟩
  · rintro ⟨x, hx⟩
    by_contra hnone
    rw [readQuotation_unterminated ho hnone] at hx
    cases hx
  · rintro ⟨body, behind, hend⟩
    exact ⟨_, readQuotation_terminated ho hend⟩
  · intro body behind hend
    exact ⟨readQuotation_terminated ho hend, fun _ _ hend' => hend.unique ho.terminator_ne hend'⟩
  · rintro s rest hrest rfl
    exact terminated_doubled hrest
  · intro d last place text ts hpieces hd
    refine ⟨fun body behind hend => hpieces.quoted ho hd hend, fun hnone => ?_⟩
    apply hpieces.fault (List.cons_ne_nil _ _)
    rw [Piece.next_opening ho hd, readQuotation_unterminated ho hnone]
    rfl

/-- Behind a bracket two closing ones are one, and the identifier goes on. -/
theorem quoted_read_brackets :
    readQuotation .identifier "[a]]b] = 1".toList = .ok ⟨.literal .identifier, "[a]]b]", 6⟩ ∧
    TokenStream.GoesOn .sqlserver "x, [a]]b] = 1".toList
      [⟨.literal .identifier, "x", 0, 1⟩, ⟨.symbol .comma, ",", 1, 2⟩] 3
      ⟨.literal .identifier, "[a]]b]", 6⟩ (some ']') " = 1".toList ∧
    TokenStream.ofText .sqlserver "x, [a]]".toList =
      ⟨[⟨.literal .identifier, "x", 0, 1⟩, ⟨.symbol .comma, ",", 1, 2⟩],
        .error ⟨3, .missingTerminator ']'⟩⟩ := by
  have ho : OpeningQuote '[' .identifier := .identifier (by decide)
  have hd : Piece.beginsWord Dialect.sqlserver.lexis '[' = true ↔
      Literal.identifier = .identifier := by decide
  have hpieces : PiecesTo .sqlserver ('[' :: "a]]b] = 1".toList) (some ' ') 3 none 0
      "x, [a]]b] = 1".toList
      [⟨.literal .identifier, "x", 0, 1⟩, ⟨.symbol .comma, ",", 1, 2⟩] :=
    .lexeme (x := ⟨.literal .identifier, "x", 1⟩) (by decide +kernel)
      (.lexeme (x := ⟨.symbol .comma, ",", 1⟩) (by decide +kernel)
        (.ignored (k := 1) (by decide +kernel) .nil))
  have hpieces' : PiecesTo .sqlserver ('[' :: "a]]".toList) (some ' ') 3 none 0 "x, [a]]".toList
      [⟨.literal .identifier, "x", 0, 1⟩, ⟨.symbol .comma, ",", 1, 2⟩] :=
    .lexeme (x := ⟨.literal .identifier, "x", 1⟩) (by decide +kernel)
      (.lexeme (x := ⟨.symbol .comma, ",", 1⟩) (by decide +kernel)
        (.ignored (k := 1) (by decide +kernel) .nil))
  obtain ⟨-, hread, -, hdoubled, htoken⟩ := quoted_read ho "a]]b] = 1".toList
  have hend := hdoubled "a]b".toList " = 1".toList (by decide) (by decide)
  have hnone : ¬∃ body behind, Terminated (terminator '[') "a]]".toList body behind := by
    rintro ⟨body, behind, hend⟩
    have hclosing : closing? (terminator '[') "a]]".toList = none := by decide
    rw [hend.closing?_eq (by decide)] at hclosing
    cases hclosing
  exact ⟨(hread _ _ hend).1, (htoken _ _ _ _ _ hpieces hd).1 _ _ hend,
    ((quoted_read ho "a]]".toList).2.2.2.2 _ _ _ _ _ hpieces' hd).2 hnone⟩

end SqlFront

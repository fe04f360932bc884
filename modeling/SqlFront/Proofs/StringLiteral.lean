import SqlFront.Proofs.Derived.Level
import SqlFront.Proofs.Lexeme.Behind
import SqlFront.Proofs.Lexeme.Written
import SqlFront.Proofs.SortKey.Whole

/-!
# String literals

A string is written as a literal by doubling its single quotes and enclosing it in two more. Wherever
a token may begin, the literal is one token, and as an expression it is the text between its quotes:
a quote that has been doubled stays doubled there.
-/

set_option autoImplicit false

namespace SqlFront

/-! ## Text in quotes

A text is put in quotes by doubling every closing character in it. Where no further closing
character follows, it is one quoted text again, with what stands between the quotes as its literals. -/

section Doubled

variable {d : Dialect} {before : Option Char} {q c : Char} {s rest : List Char}

namespace Quoted

def doubled (q : Char) : List Char → List Char
  | [] => []
  | c :: s => if c = q then q :: q :: doubled q s else c :: doubled q s

def enclosed (q : Char) (s : List Char) : List Char := q :: (doubled q s ++ [q])

theorem length_doubled : (doubled q s).length = s.length + s.count q := by
  induction s with
  | nil => rfl
  | cons c s ih =>
    by_cases hc : c = q
    · subst hc
      simp only [doubled, if_true, List.length_cons, ih, List.count_cons_self]
      omega
    · simp only [doubled, if_neg hc, List.length_cons, ih, List.count_cons_of_ne hc]
      omega

theorem doubled_eq_self_iff : doubled q s = s ↔ q ∉ s := by
  constructor
  · intro h hq
    have hlen := congrArg List.length h
    rw [length_doubled] at hlen
    have hpos := List.count_pos_iff.2 hq
    omega
  · intro h
    induction s with
    | nil => rfl
    | cons c s ih =>
      simp only [List.mem_cons, not_or] at h
      rw [doubled, if_neg (Ne.symm h.1), ih h.2]

theorem closing?_cons_of_ne (hc : c ≠ q) : closing? q (c :: rest) = (closing? q rest).map (· + 1) := by
  cases rest with
  | nil => simp [closing?, hc]
  | cons c' rest => rw [closing?, if_neg hc]

theorem closing?_doubled_append (hq : q ≠ endMark) (hrest : rest.head? ≠ some q) :
    closing? q (doubled q s ++ q :: rest) = some ((doubled q s).length + 1) := by
  induction s with
  | nil =>
    cases rest with
    | nil => simp [doubled, closing?, hq]
    | cons c rest =>
      have hc : c ≠ q := by simpa using hrest
      simp [doubled, closing?, hc]
  | cons c s ih =>
    by_cases hc : c = q
    · simp only [doubled, if_pos hc, List.cons_append, closing?, if_true, ih, Option.map_some,
        List.length_cons]
    · rw [doubled, if_neg hc, List.cons_append, closing?_cons_of_ne hc, ih]
      rfl

end Quoted

open Quoted

theorem Lexeme.quotedString_enclosed (hq : q ≠ endMark) (hrest : rest.head? ≠ some q) :
    quotedString (enclosed q s ++ rest) =
      .ok ⟨.literal .chars, String.ofList (doubled q s), (enclosed q s).length⟩ := by
  have hfront : enclosed q s ++ rest = q :: (doubled q s ++ q :: rest) := by simp [enclosed]
  have hlength : length? q (q :: (doubled q s ++ q :: rest)) = some (enclosed q s).length := by
    rw [length?, List.tail_cons, closing?_doubled_append hq hrest]
    simp [enclosed]
  have hinner : slice (q :: (doubled q s ++ q :: rest)) 1 ((enclosed q s).length - 1) =
      String.ofList (doubled q s) := by simp [slice, enclosed]
  have hchar : charAt (q :: (doubled q s ++ q :: rest)) 0 = q := rfl
  simp only [hfront, quotedString, hchar, hlength, hinner]

theorem Piece.next_string (hrest : rest.head? ≠ some '\'') :
    next d before (enclosed '\'' s ++ rest) = .ok (.lexeme
      ⟨.literal .chars, String.ofList (doubled '\'' s), (enclosed '\'' s).length⟩) := by
  have hstring := Lexeme.quotedString_enclosed (s := s) (by decide : '\'' ≠ endMark) hrest
  have hstretch : Ignored.stretch d.lexis (enclosed '\'' s ++ rest) = .ok 0 :=
    Ignored.stretch_zero (by decide) (by decide)
  have hsignificant : significant d before (enclosed '\'' s ++ rest) =
      here (Lexeme.quotedString (enclosed '\'' s ++ rest)) := by
    cases d <;> rfl
  rw [next, hstretch]
  simp only [hsignificant, hstring, here]

end Doubled

/-! ## String literals -/

section Literal

open SqlFront.Parser SqlFront.Clause SqlFront.Quoted

variable {d : Dialect} {sql s : String} {t : Token} {ts more behind : List Token}
  {text rest : List Char} {last : Option Char} {place : ℕ}

def literalText (s : String) : String := String.ofList (doubled '\'' s.toList)

def stringToken (start : ℕ) (s : String) : Token :=
  ⟨.literal .chars, literalText s, start, start + (enclosed '\'' s.toList).length⟩

theorem literalText_eq_self_iff : literalText s = s ↔ '\'' ∉ s.toList := by
  rw [← doubled_eq_self_iff, literalText, ← String.toList_inj, String.toList_ofList]

/-- Behind the tokens up to its place the literal of a string is one token. -/
theorem PiecesTo.string
    (h : PiecesTo d (enclosed '\'' s.toList ++ rest) last place none 0 text ts)
    (hrest : rest.head? ≠ some '\'') :
    ∃ behind, (TokenStream.ofText d text).tokens = ts ++ stringToken place s :: behind := by
  obtain ⟨j, hj, hscan⟩ := h.scan (Nat.le_refl _)
  obtain ⟨j, rfl⟩ : ∃ k, j = k + 1 := by
    apply Nat.exists_eq_add_one.2
    simp only [List.length_append, enclosed, List.length_cons] at hj
    omega
  rw [TokenStream.ofText, hscan, TokenStream.scan, Piece.next_string hrest]
  exact ⟨_, rfl⟩

/-- A string alone is an expression. -/
theorem expression_string {w : Workspace Findings} (ht : t.type = .literal .chars)
    (hm : endsOperand more = true) (hw : w.cursor.Passes [t] more) :
    ∃ v, expression w = .ok (.text t.literals) v ∧ v.cursor.Faces more ∧ v.draft = w.draft := by
  have hwhole : Whole [t] := .word (by simp [ht]) (by simp) (.chain .nil)
  have hvalue : wholeValue w.cursor.text w.draft.placeholders [t] = .text t.literals := by
    simp [wholeValue, operandValue, literal, ht]
  have hcount : wholeCount [t] = 0 := placeholderCount_of_ne (by simp [ht])
  obtain ⟨_, v, hrun, rfl, hread⟩ := (expression_read hwhole hm hw).run
  obtain ⟨edits, hdraft, rfl | ⟨_, _, _, -, hproperty⟩⟩ := hread.draft
  · refine ⟨v, hvalue ▸ hrun, hread.passes.faces, ?_⟩
    rw [hdraft, hcount, List.append_nil]
    rfl
  · rw [hvalue] at hproperty
    cases hproperty

/-- Where a piece of a text begins with the literal of a string, the literal is one token, and where
nothing behind goes on with it, it is an expression. What is read is the string with its quotes
doubled, which is the string itself only if it has no quote. -/
theorem string_literal_read
    (h : PiecesTo d (enclosed '\'' s.toList ++ rest) last place none 0 sql.toList ts)
    (hrest : rest.head? ≠ some '\'') :
    (literalText s = s ↔ '\'' ∉ s.toList) ∧
    ∃ behind, (TokenStream.ofText d sql.toList).tokens = ts ++ stringToken place s :: behind ∧
      ((behind = [] → ∃ e, (TokenStream.ofText d sql.toList).ending = .ok e) →
        endsOperand behind = true →
        ∃ c, Arrived d sql c ∧ c.Faces (stringToken place s :: behind) ∧
          ∀ f, ∃ v, expression ⟨c, f⟩ = .ok (.text (literalText s)) v ∧ v.cursor.Faces behind ∧
            v.draft = f) := by
  obtain ⟨behind, htokens⟩ := h.string hrest
  refine ⟨literalText_eq_self_iff, behind, htokens, fun hend hm => ?_⟩
  obtain ⟨t, hpeek⟩ : ∃ t us, (TokenStream.ofText d sql.toList).tokens = t :: us :=
    List.exists_cons_of_ne_nil (by simp [htokens])
  obtain ⟨us, hfront⟩ := hpeek
  obtain ⟨c₀, hc₀, -⟩ := Cursor.ofText_first hfront
  have hpasses : c₀.Passes ts (stringToken place s :: behind) :=
    Cursor.ofText_passes htokens (by simp) hc₀
  obtain ⟨c, hc, hpast⟩ := hpasses.reaches
  have hhere : c.Passes [stringToken place s] behind := by
    refine ⟨hpast.faces, fun hnil => ?_⟩
    rw [hc.ending, Cursor.advance_ending hc₀]
    exact hend hnil
  exact ⟨c, ⟨c₀, hc₀, hc⟩, hpast.faces, fun f => expression_string (w := ⟨c, f⟩) rfl hm hhere⟩

theorem string_literal_read_doubled : ∃ c v, Arrived .mysql "x = 'it''s' AND y" c ∧
    c.current = ⟨.literal .chars, "it''s", 4, 11⟩ ∧
    expression ⟨c, { kind := .dql }⟩ = .ok (.text "it''s") v ∧
    v.cursor.isAt (.keyword .AND) = true ∧ v.draft = { kind := .dql } := by
  have hpieces : PiecesTo .mysql (enclosed '\'' "it's".toList ++ " AND y".toList) (some ' ') 4 none 0
      "x = 'it''s' AND y".toList
      [⟨.literal .identifier, "x", 0, 1⟩, ⟨.symbol .equal, "=", 2, 3⟩] :=
    .lexeme (x := ⟨.literal .identifier, "x", 1⟩) (by decide +kernel)
      (.ignored (k := 1) (by decide +kernel)
        (.lexeme (x := ⟨.symbol .equal, "=", 1⟩) (by decide +kernel)
          (.ignored (k := 1) (by decide +kernel) .nil)))
  obtain ⟨-, behind, htokens, hread⟩ := string_literal_read hpieces (by decide)
  have hbehind : behind = [⟨.keyword .AND, "AND", 12, 15⟩, ⟨.literal .identifier, "y", 16, 17⟩] := by
    have hall : (TokenStream.ofText .mysql "x = 'it''s' AND y".toList).tokens =
        [⟨.literal .identifier, "x", 0, 1⟩, ⟨.symbol .equal, "=", 2, 3⟩, stringToken 4 "it's",
          ⟨.keyword .AND, "AND", 12, 15⟩, ⟨.literal .identifier, "y", 16, 17⟩] := by
      decide +kernel
    simpa using htokens.symm.trans hall
  subst hbehind
  obtain ⟨c, hc, hfaces, hexpression⟩ := hread (by simp) (by decide)
  obtain ⟨v, hrun, hv, hdraft⟩ := hexpression { kind := .dql }
  exact ⟨c, v, hc, hfaces.current, hrun, by rw [hv.isAt]; rfl, hdraft⟩

/-- A doubled quote is read as two quotes, so that the literal does not stand for its string. -/
theorem doubled_quote_kept : ¬∀ (d : Dialect) (s : String) (c : Cursor),
    (Cursor.ofText d (String.ofList (enclosed '\'' s.toList))).advance = .ok c →
    ∃ v, expression ⟨c, { kind := .dql }⟩ = .ok (.text s) v := by
  intro h
  have hall : (TokenStream.ofText .mysql (String.ofList (enclosed '\'' "it's".toList)).toList).tokens =
      [⟨.literal .chars, "it''s", 0, 7⟩] := by decide +kernel
  have hending : (TokenStream.ofText .mysql
      (String.ofList (enclosed '\'' "it's".toList)).toList).ending = .ok (Token.atEnd 7) := by
    decide +kernel
  obtain ⟨c, hc, -⟩ := Cursor.ofText_first hall
  have hpasses : c.Passes [⟨.literal .chars, "it''s", 0, 7⟩] [] :=
    Cursor.ofText_passes hall (fun _ => ⟨_, hending⟩) hc
  obtain ⟨v, hv⟩ := h .mysql "it's" c hc
  obtain ⟨x, hx, -⟩ := expression_string (w := ⟨c, { kind := .dql }⟩) rfl (by decide) hpasses
  rw [hx] at hv
  obtain ⟨htext, -⟩ := EStateM.Result.ok.inj hv
  exact absurd (Expression.text.inj htext) (by decide)

end Literal

end SqlFront

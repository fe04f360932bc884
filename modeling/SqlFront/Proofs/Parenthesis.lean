import SqlFront.Proofs.Derived.Call
import SqlFront.Proofs.Insertion.Enclosed
import SqlFront.Proofs.SourceSpan

/-!
# Matching parentheses

Skipping from an opening parenthesis leads to the one that matches it, with the text between the two
as its result. Without a match it leads to the end of the text. Tokens are matched, not characters,
so that a parenthesis in a string or a comment is none.
-/

set_option autoImplicit false

namespace SqlFront

open SqlFront.Parser

variable {d : Dialect} {sql : String} {c : Cursor} {w : Workspace Findings} {l : Token}
  {us ts more : List Token} {n : ℕ}

/-! ## Balanced tokens -/

inductive Balanced : List Token → Prop
  | nil : Balanced []
  | token {t : Token} {ts : List Token} : t.type ≠ .symbol .leftParen →
      t.type ≠ .symbol .rightParen → Balanced ts → Balanced (t :: ts)
  | group {l r : Token} {us ts : List Token} : l.type = .symbol .leftParen →
      r.type = .symbol .rightParen → Balanced us → Balanced ts → Balanced (l :: (us ++ r :: ts))

/-- In front of these tokens stands an opening parenthesis, and it matches `r`: the tokens between
the two are balanced. -/
structure Matches (ts inside : List Token) (r : Token) (more : List Token) : Prop where
  split : ts = inside ++ r :: more
  rightParen : r.type = .symbol .rightParen
  balanced : Balanced inside

/-- Balanced tokens make no difference to how deep a reader is. -/
theorem Balanced.closes (h : Balanced us) (hend : ∀ t ∈ us, t.type ≠ .endOfText)
    (hts : Closes n ts) : Closes n (us ++ ts) := by
  induction h generalizing n ts with
  | nil => exact hts
  | token hleft hright _ ih =>
    rw [List.forall_mem_cons] at hend
    exact .token hleft hright hend.1 (ih hend.2 hts)
  | @group l r us vs hl hr _ _ ihus ihvs =>
    simp only [List.forall_mem_cons, List.forall_mem_append] at hend
    have hvs : Closes n (vs ++ ts) := ihvs hend.2.2.2 hts
    have hus : Closes (n + 1) (us ++ r :: (vs ++ ts)) := ihus hend.2.1 (.close hr hvs)
    simpa using Closes.deeper hl hus

theorem Closes.balanced (h : Closes 0 ts) :
    ∃ us r, ts = us ++ [r] ∧ r.type = .symbol .rightParen ∧ Balanced us := by
  -- By induction on the number of tokens, since a group and what follows it are both parts.
  induction hk : ts.length using Nat.strong_induction_on generalizing ts with
  | _ k ih =>
    cases h with
    | @last r hr => exact ⟨[], r, rfl, hr, .nil⟩
    | @token _ t ts hleft hright _ h =>
      obtain ⟨us, r, rfl, hr, hus⟩ := ih ts.length (by simp [← hk]) h rfl
      exact ⟨t :: us, r, rfl, hr, .token hleft hright hus⟩
    | @deeper _ l ts hl h =>
      obtain ⟨us, vs, rfl, hus, hvs⟩ := (Closes.deeper hl h).group hl
      rw [List.length_cons, List.length_append] at hk
      obtain ⟨us, r, rfl, hr, hbus⟩ := ih us.length (by omega) hus rfl
      obtain ⟨vs, s, rfl, hs, hbvs⟩ := ih vs.length (by omega) hvs rfl
      exact ⟨l :: (us ++ r :: vs), s, by simp, hs, .group hl hr hbus hbvs⟩

theorem Matches.closes {inside : List Token} {r : Token} (h : Matches ts inside r more)
    (hend : ∀ t ∈ ts, t.type ≠ .endOfText) : Closes 0 (inside ++ [r]) := by
  rw [h.split, List.forall_mem_append] at hend
  exact h.balanced.closes hend.1 (.last h.rightParen)

/-! ## No match -/

structure Unclosed (n : ℕ) (ts : List Token) : Prop where
  unclosed : ∀ us vs, ts = us ++ vs → ¬Closes n us
  inner : ∀ t ∈ ts, t.type ≠ .endOfText

namespace Unclosed

variable {m : ℕ} {t : Token}

/-- What closes the outermost parenthesis behind a token would do so with the token. -/
theorem behind (h : Unclosed n (t :: ts)) (hm : ∀ us, Closes m us → Closes n (t :: us)) :
    Unclosed m ts := by
  constructor
  · rintro us vs rfl hus
    exact h.unclosed (t :: us) vs rfl (hm us hus)
  · exact fun u hu => h.inner u (List.mem_cons_of_mem t hu)

theorem of_no_match (h : ¬∃ inside r more, Matches ts inside r more)
    (hend : ∀ t ∈ ts, t.type ≠ .endOfText) : Unclosed 0 ts := by
  refine ⟨?_, hend⟩
  rintro us vs rfl hus
  obtain ⟨inside, r, rfl, hr, hinside⟩ := hus.balanced
  exact h ⟨inside, r, vs, by simp, hr, hinside⟩

end Unclosed

theorem skipNested_unclosed {v : Workspace Findings} {start depth : ℕ}
    (hI : InDepth Unclosed w us [] [] n depth v) :
    Achieves v (skipNested start depth)
      (Round n (InDepth Unclosed w us [] []) (Closed w us [] [])) := by
  obtain ⟨before, behind, hsplit, hn, hc, hv⟩ := hI
  have hp := hv.passes
  unfold skipNested
  apply settles_current.2
  cases behind with
  | nil =>
    have hend : v.cursor.current.type = .endOfText := hp.type
    simp only [hend]
    obtain rfl : before = us := by simpa using hsplit
    apply settles_cursor.2
    exact Settles.pure hv
  | cons t behind =>
    rw [hp.current]
    have ht : t.type ≠ .endOfText := hc.inner t (by simp)
    by_cases hq : t.type = .symbol .question
    · simp only [hq]
      refine InDepth.counts hsplit hn (hc.behind fun us hus => ?_) hv hq
      exact .token (by simp [hq]) (by simp [hq]) ht hus
    by_cases hl : t.type = .symbol .leftParen
    · simp only [hl]
      exact InDepth.skips hsplit hn (hc.behind fun us hus => .deeper hl hus) hv hq
    by_cases hr : t.type = .symbol .rightParen
    · simp only [hr]
      cases depth with
      | zero => exact (hc.unclosed [t] behind rfl (.last hr)).elim
      | succ depth =>
        simp only [if_neg (Nat.succ_ne_zero depth)]
        exact InDepth.skips hsplit hn (hc.behind fun us hus => .close hr hus) hv hq
    · have hother : Unclosed depth behind := hc.behind fun us hus => .token hl hr ht hus
      split <;> first | contradiction | exact InDepth.skips hsplit hn hother hv hq

theorem achieves_unclosed (hl : l.type = .symbol .leftParen) (hts : Unclosed 0 ts)
    (hw : w.cursor.Passes (l :: ts) []) :
    Achieves w skipParentheses (Closed w (l :: ts) [] []) := by
  rw [skipParentheses_eq]
  apply settles_isAt.2
  rw [Cursor.isAt_iff.2 (hw.current ▸ hl), if_pos rfl, settles_current]
  apply (achieves_advance hw).bind
  intro _ v hv
  have hp : v.cursor.Passes (ts ++ []) [] := by simpa using hv.passes
  have hI : InDepth Unclosed w (l :: ts) [] [] ts.length 0 v := by
    have hpassed := hv.passed hw (by simp [hl])
    exact .start hts ⟨hpassed.walk, hp, hpassed.counts⟩
  exact Settles.repeatFrom (fun _ _ _ => skipNested_unclosed) hI hv.passes.length_lt_moves

/-! ## Skipping -/

section Skipping

variable {f : Findings} {r : Token} {inside : List Token}

theorem skipParentheses_matched (hc : Arrived d sql c) (hend : ∃ e, c.ahead.ending = .ok e)
    (hl : l.type = .symbol .leftParen) (hts : c.Faces (l :: ts)) (h : Matches ts inside r more) :
    ∃ v, skipParentheses ⟨c, f⟩ = .ok (slice sql.toList l.stop r.start) v ∧
      c.Walk (l :: (inside ++ [r])) v.cursor ∧ v.cursor.Faces more ∧
      v.draft = { f with placeholders := f.placeholders + placeholderCount inside } := by
  have hinner := hc.inner hts (by simp [hl])
  rw [List.forall_mem_cons] at hinner
  have hcloses := h.closes hinner.2
  obtain ⟨rfl, hr, -⟩ := h
  have hp : c.Passes (l :: (inside ++ [r]) ++ []) more := ⟨by simpa using hts, fun _ => hend⟩
  obtain ⟨_, v, hrun, rfl, hv⟩ :=
    (achieves_argument (w := ⟨c, f⟩) hl hcloses (by simpa using hinner.2) hp).run
  have hcount : placeholderCount (l :: (inside ++ [r])) = placeholderCount inside := by
    simp [placeholderCount, hl, hr]
  exact ⟨v, hc.text ▸ hrun, hv.walk, hv.passes.faces, hcount ▸ hv.counts⟩

theorem skipParentheses_unmatched (hc : Arrived d sql c) (hend : ∃ e, c.ahead.ending = .ok e)
    (hl : l.type = .symbol .leftParen) (hts : c.Faces (l :: ts))
    (hnone : ¬∃ inside r more, Matches ts inside r more) :
    ∃ v, skipParentheses ⟨c, f⟩ = .ok (slice sql.toList l.stop sql.toList.length) v ∧
      c.Walk (l :: ts) v.cursor ∧ v.cursor.isAtEnd = true ∧
      v.draft = { f with placeholders := f.placeholders + placeholderCount ts } := by
  have hinner := hc.inner hts (by simp [hl])
  rw [List.forall_mem_cons] at hinner
  have hunclosed := Unclosed.of_no_match hnone hinner.2
  have hp : c.Passes (l :: ts) [] := ⟨by simpa using hts, fun _ => hend⟩
  obtain ⟨argument, v, hrun, hv⟩ := (achieves_unclosed (w := ⟨c, f⟩) hl hunclosed hp).run
  have hcount : placeholderCount (l :: ts) = placeholderCount ts := by
    simp [placeholderCount, hl]
  have hatEnd : v.cursor.isAtEnd = true := by
    rw [Cursor.isAtEnd, hv.passes.type]
    rfl
  obtain ⟨arg, post, hsplit, hread⟩ :=
    skipParentheses_argument (w := ⟨c, f⟩) hl hts hinner.2 hrun
  cases hread with
  | @closed post r hclosed =>
    exact (hunclosed.unclosed (arg ++ [r]) post (by simpa using hsplit) hclosed).elim
  | unclosed => exact ⟨v, hc.text ▸ hrun, hv.walk, hatEnd, hcount ▸ hv.counts⟩

theorem skipParentheses_elsewhere (hat : c.isAt (.symbol .leftParen) = false) :
    skipParentheses ⟨c, f⟩ = .ok "" ⟨c, f⟩ := by
  rw [skipParentheses_eq]
  change (if c.isAt (.symbol .leftParen) = true then _ else pure "" : Parser Findings String)
    ⟨c, f⟩ = _
  rw [hat]
  rfl

/-- From an opening parenthesis on, up to the one that matches it or else up to the end of the text,
the tokens are skipped, the placeholders between are counted, and the text between is the result. On
any other token nothing is done. -/
theorem parentheses_skipped (hc : Arrived d sql c) (f : Findings) :
    ((∃ e, c.ahead.ending = .ok e) → ∀ l ts, l.type = .symbol .leftParen → c.Faces (l :: ts) →
      (∀ inside r more, Matches ts inside r more →
        ∃ v, skipParentheses ⟨c, f⟩ = .ok (slice sql.toList l.stop r.start) v ∧
          c.Walk (l :: (inside ++ [r])) v.cursor ∧ v.cursor.Faces more ∧
          v.draft = { f with placeholders := f.placeholders + placeholderCount inside }) ∧
      ((¬∃ inside r more, Matches ts inside r more) →
        ∃ v, skipParentheses ⟨c, f⟩ = .ok (slice sql.toList l.stop sql.toList.length) v ∧
          c.Walk (l :: ts) v.cursor ∧ v.cursor.isAtEnd = true ∧
          v.draft = { f with placeholders := f.placeholders + placeholderCount ts })) ∧
    (c.isAt (.symbol .leftParen) = false → skipParentheses ⟨c, f⟩ = .ok "" ⟨c, f⟩) := by
  refine ⟨?_, skipParentheses_elsewhere⟩
  intro hend l ts hl hts
  constructor
  · intro inside r more h
    exact skipParentheses_matched hc hend hl hts h
  · intro hnone
    exact skipParentheses_unmatched hc hend hl hts hnone

/-- The parenthesis in the string is none, the first group ends behind it, and the second one has no
end. -/
theorem parentheses_skipped_twice : ∃ c c' v v',
    Arrived .mysql "(?, f(?), ')') AND (a" c ∧ Arrived .mysql "(?, f(?), ')') AND (a" c' ∧
    skipParentheses ⟨c, { kind := .dql }⟩ = .ok "?, f(?), ')'" v ∧
    v.cursor.isAt (.keyword .AND) = true ∧ v.draft = { kind := .dql, placeholders := 2 } ∧
    skipParentheses ⟨v.cursor, v.draft⟩ = .ok "" ⟨v.cursor, v.draft⟩ ∧
    skipParentheses ⟨c', v.draft⟩ = .ok "a" v' ∧ v'.cursor.isAtEnd = true ∧ v'.draft = v.draft := by
  have htokens : (TokenStream.ofText .mysql "(?, f(?), ')') AND (a".toList).tokens =
      [⟨.symbol .leftParen, "(", 0, 1⟩, ⟨.symbol .question, "?", 1, 2⟩, ⟨.symbol .comma, ",", 2, 3⟩,
        ⟨.literal .identifier, "f", 4, 5⟩, ⟨.symbol .leftParen, "(", 5, 6⟩,
        ⟨.symbol .question, "?", 6, 7⟩, ⟨.symbol .rightParen, ")", 7, 8⟩,
        ⟨.symbol .comma, ",", 8, 9⟩, ⟨.literal .chars, ")", 10, 13⟩,
        ⟨.symbol .rightParen, ")", 13, 14⟩, ⟨.keyword .AND, "AND", 15, 18⟩,
        ⟨.symbol .leftParen, "(", 19, 20⟩, ⟨.literal .identifier, "a", 20, 21⟩] := by
    decide +kernel
  have hending : (TokenStream.ofText .mysql "(?, f(?), ')') AND (a".toList).ending =
      .ok (Token.atEnd 21) := by decide +kernel
  obtain ⟨c, hfirst, hfaces⟩ := Cursor.ofText_first htokens
  have hc : Arrived .mysql "(?, f(?), ')') AND (a" c := ⟨c, hfirst, .refl c⟩
  have hend : c.ahead.ending = .ok (Token.atEnd 21) := (Cursor.advance_ending hfirst).trans hending
  have hbalanced : Balanced [⟨.symbol .question, "?", 1, 2⟩, ⟨.symbol .comma, ",", 2, 3⟩,
      ⟨.literal .identifier, "f", 4, 5⟩, ⟨.symbol .leftParen, "(", 5, 6⟩,
      ⟨.symbol .question, "?", 6, 7⟩, ⟨.symbol .rightParen, ")", 7, 8⟩,
      ⟨.symbol .comma, ",", 8, 9⟩, ⟨.literal .chars, ")", 10, 13⟩] :=
    .token (by simp) (by simp) (.token (by simp) (by simp) (.token (by simp) (by simp)
      (@Balanced.group _ _ [_] _ rfl rfl (.token (by simp) (by simp) .nil)
        (.token (by simp) (by simp) (.token (by simp) (by simp) .nil)))))
  obtain ⟨v, hrun, hwalk, hv, hdraft⟩ :=
    ((parentheses_skipped hc { kind := .dql }).1 ⟨_, hend⟩ _ _ rfl hfaces).1 _
      ⟨.symbol .rightParen, ")", 13, 14⟩ _ ⟨rfl, rfl, hbalanced⟩
  have harrived := hc.reaches hwalk.reaches
  have hend' : v.cursor.ahead.ending = .ok (Token.atEnd 21) := hwalk.reaches.ending.trans hend
  have hat : v.cursor.isAt (.keyword .AND) = true := by rw [hv.isAt]; rfl
  have hnot : v.cursor.isAt (.symbol .leftParen) = false := by rw [hv.isAt]; rfl
  have hstays := (parentheses_skipped harrived v.draft).2 hnot
  have hpasses : v.cursor.Passes [⟨.keyword .AND, "AND", 15, 18⟩]
      [⟨.symbol .leftParen, "(", 19, 20⟩, ⟨.literal .identifier, "a", 20, 21⟩] :=
    hv.passes (by simp)
  obtain ⟨c', hc', hv'⟩ := hpasses.reaches
  have hnone : ¬∃ inside r more, Matches [⟨.literal .identifier, "a", 20, 21⟩] inside r more := by
    rintro ⟨inside, r, more, hsplit, hr, -⟩
    have hmem : r ∈ [(⟨.literal .identifier, "a", 20, 21⟩ : Token)] := by simp [hsplit]
    rw [List.mem_singleton.1 hmem] at hr
    cases hr
  obtain ⟨v', hrun', -, hatEnd, hdraft'⟩ := ((parentheses_skipped (harrived.reaches hc') v.draft).1
    ⟨_, hc'.ending.trans hend'⟩ _ _ rfl hv'.faces).2 hnone
  exact ⟨c, c', v, v', hc, harrived.reaches hc', hrun, hat, hdraft, hstays, hrun', hatEnd, hdraft'⟩

end Skipping

end SqlFront

import SqlFront.Proofs.SortKey.Whole
import SqlFront.Proofs.SourceSpan

/-!
# Composite expressions

Several operands with operators between them, a call and a group in parentheses are kept as the text
that they stand in, from the first token to the last one.
-/

set_option autoImplicit false

namespace SqlFront

open SqlFront.Parser SqlFront.Clause

variable {d : Dialect} {sql : String} {c : Cursor} {t o : Token} {first steps ts more : List Token}

/-- A first operand and operators, each with the operand behind it: neither one word, literal or
placeholder by itself nor a member of an owner. Behind the dot of a single token stands a word that
no parentheses follow. -/
structure IsComposite (first steps : List Token) : Prop where
  operand : Operand first
  chained : Chained steps
  several : first.length = 1 → steps ≠ []
  not_member : ∀ t d n, first ++ steps = [t, d, n] → t.type = .symbol .leftParen ∨
    d.type ≠ .symbol .dot
  member : ∀ d n ts, first.length = 1 → steps = d :: n :: ts → d.type = .symbol .dot →
    n.isWord = true ∧ frontType ts ≠ .symbol .leftParen

namespace IsComposite

/-- Behind the dot of a single token the chain goes on with one word. -/
theorem dot (h : IsComposite [t] (o :: ts)) (ho : o.type = .symbol .dot) :
    ∃ n us, ts = n :: us ∧ n.isWord = true ∧ Chained us := by
  have hsteps := h.chained
  generalize hx : o :: ts = x at hsteps
  cases hsteps with
  | nil => cases hx
  | @cons o us vs _ hus hvs =>
    obtain ⟨rfl, rfl⟩ := List.cons.inj hx
    obtain ⟨n, us, rfl⟩ := List.exists_cons_of_ne_nil hus.ne_nil
    obtain ⟨hn, hparen⟩ := h.member _ n (us ++ vs) rfl rfl ho
    cases hus with
    | token => exact ⟨n, vs, rfl, hn, hvs⟩
    | call _ hl => exact (hparen hl).elim
    | group hl => simp [Token.isWord, hl] at hn

theorem exists_cons (h : IsComposite [t] steps) : ∃ o ts, steps = o :: ts :=
  List.exists_cons_of_ne_nil (h.several rfl)

theorem one_lt_length (h : IsComposite first steps) : 1 < (first ++ steps).length := by
  cases h.operand with
  | token =>
    obtain ⟨o, ts, rfl⟩ := h.exists_cons
    simp
  | call => simp
  | group _ hus => cases hus <;> simp

theorem whole (h : IsComposite first steps) : Whole (first ++ steps) := by
  cases h.operand with
  | token ht =>
    obtain ⟨o, ts, rfl⟩ := h.exists_cons
    by_cases ho : o.type = .symbol .dot
    · obtain ⟨n, us, rfl, -, hus⟩ := h.dot ho
      exact .member ht ho (.chain hus)
    · exact .word ht ho (.chain h.chained)
  | call ht hl hus => exact .call ht hl hus h.chained
  | group hl hus => exact .group hl hus h.chained

/-- No placeholder is taken for a name. -/
theorem count (h : IsComposite first steps) :
    wholeCount (first ++ steps) = placeholderCount (first ++ steps) := by
  cases h.operand with
  | @token t ht =>
    obtain ⟨o, ts, rfl⟩ := h.exists_cons
    by_cases ho : o.type = .symbol .dot
    · obtain ⟨n, us, rfl, hn, -⟩ := h.dot ho
      simp only [Token.isWord, Bool.and_eq_true, bne_iff_ne] at hn
      have hdot : o.type ≠ .symbol .question := by simp [ho]
      simp [wholeCount_member ht ho, placeholderCount, List.countP_cons, hdot, hn.1]
    · exact wholeCount_of_front (Or.inr ho)
  | call ht hl => exact wholeCount_of_front (Or.inr (by simp [hl]))
  | group hl => exact wholeCount_of_front (Or.inl hl)

end IsComposite

/-- A composite expression is its text from the first token to the last one. The reader stands on
the token behind it, has counted its placeholders and has changed nothing else. -/
theorem composite_captured (hc : Arrived d sql c) (h : IsComposite first steps)
    (hw : c.Passes (first ++ steps) more) (hm : endsOperand more = true) (f : Findings) :
    ∃ t u v, (first ++ steps).head? = some t ∧ (first ++ steps).getLast? = some u ∧
      expression ⟨c, f⟩ = .ok (.raw (slice sql.toList t.start u.stop)) v ∧ v.cursor.Faces more ∧
      v.draft = { f with placeholders := f.placeholders + placeholderCount (first ++ steps) } := by
  have hlen := h.one_lt_length
  have hne : first ++ steps ≠ [] := List.ne_nil_of_length_pos (Nat.zero_lt_of_lt hlen)
  have hmany : ∀ n, first ++ steps ++ more ≠ [Token.atEnd n] := by
    intro n hend
    have hcount := congrArg List.length hend
    rw [List.length_append, List.length_singleton] at hcount
    omega
  obtain ⟨before, htokens⟩ :=
    hc.tokens hw.faces (List.append_ne_nil_of_left_ne_nil hne _) hmany
  have hvalue : wholeValue c.text f.placeholders (first ++ steps) =
      .raw (spanOf sql.toList (first ++ steps)) := by
    rw [wholeValue_text hlen h.not_member, hc.text]
    exact congrArg Expression.raw (TokenStream.trimmed_span htokens hne)
  obtain ⟨t, u, ht, hu, hspan⟩ := exists_ends sql.toList hne
  rw [hspan] at hvalue
  obtain ⟨_, v, hrun, rfl, hread⟩ := (expression_read (w := ⟨c, f⟩) h.whole hm hw).run
  obtain ⟨edits, hdraft, rfl | ⟨_, _, _, -, hproperty⟩⟩ := hread.draft
  · refine ⟨t, u, v, ht, hu, hvalue ▸ hrun, hread.passes.faces, ?_⟩
    rw [hdraft, h.count, List.append_nil]
  · rw [hvalue] at hproperty
    cases hproperty

theorem composite_captured_nested : ∃ c v, Arrived .mysql "a.b+f(?,(1))*? FROM" c ∧
    expression ⟨c, { kind := .dql }⟩ = .ok (.raw "a.b+f(?,(1))*?") v ∧
    v.cursor.isAt (.keyword .FROM) = true ∧ v.draft = { kind := .dql, placeholders := 2 } := by
  have htokens : (TokenStream.ofText .mysql "a.b+f(?,(1))*? FROM".toList).tokens =
      [⟨.literal .identifier, "a", 0, 1⟩, ⟨.symbol .dot, ".", 1, 2⟩,
        ⟨.literal .identifier, "b", 2, 3⟩, ⟨.symbol .plus, "+", 3, 4⟩,
        ⟨.literal .identifier, "f", 4, 5⟩, ⟨.symbol .leftParen, "(", 5, 6⟩,
        ⟨.symbol .question, "?", 6, 7⟩, ⟨.symbol .comma, ",", 7, 8⟩,
        ⟨.symbol .leftParen, "(", 8, 9⟩, ⟨.literal .int, "1", 9, 10⟩,
        ⟨.symbol .rightParen, ")", 10, 11⟩, ⟨.symbol .rightParen, ")", 11, 12⟩,
        ⟨.symbol .star, "*", 12, 13⟩, ⟨.symbol .question, "?", 13, 14⟩,
        ⟨.keyword .FROM, "FROM", 15, 19⟩] := by decide +kernel
  obtain ⟨c, hc, hfaces⟩ := Cursor.ofText_first htokens
  have harrived : Arrived .mysql "a.b+f(?,(1))*? FROM" c := ⟨c, hc, .refl c⟩
  -- The argument list of the call, from behind its first parenthesis.
  have hcloses : Closes 0 [⟨.symbol .question, "?", 6, 7⟩, ⟨.symbol .comma, ",", 7, 8⟩,
      ⟨.symbol .leftParen, "(", 8, 9⟩, ⟨.literal .int, "1", 9, 10⟩,
      ⟨.symbol .rightParen, ")", 10, 11⟩, ⟨.symbol .rightParen, ")", 11, 12⟩] :=
    .token (by simp) (by simp) (by simp) (.token (by simp) (by simp) (by simp)
      (.deeper rfl (.token (by simp) (by simp) (by simp) (.close rfl (.last rfl)))))
  have hchained : Chained [⟨.symbol .dot, ".", 1, 2⟩, ⟨.literal .identifier, "b", 2, 3⟩,
      ⟨.symbol .plus, "+", 3, 4⟩, ⟨.literal .identifier, "f", 4, 5⟩,
      ⟨.symbol .leftParen, "(", 5, 6⟩, ⟨.symbol .question, "?", 6, 7⟩,
      ⟨.symbol .comma, ",", 7, 8⟩, ⟨.symbol .leftParen, "(", 8, 9⟩, ⟨.literal .int, "1", 9, 10⟩,
      ⟨.symbol .rightParen, ")", 10, 11⟩, ⟨.symbol .rightParen, ")", 11, 12⟩,
      ⟨.symbol .star, "*", 12, 13⟩, ⟨.symbol .question, "?", 13, 14⟩] :=
    @Chained.cons _ [_] _ (by decide) (.token (by simp)) (.cons (by decide)
      (.call (by simp) rfl hcloses) (@Chained.cons _ [_] _ (by decide) (.token (by simp)) .nil))
  have hcomposite : IsComposite [⟨.literal .identifier, "a", 0, 1⟩] _ :=
    ⟨.token (by simp), hchained, by simp, by simp, by
      rintro d n ts - heq -
      simp only [List.cons.injEq] at heq
      obtain ⟨-, rfl, rfl⟩ := heq
      exact ⟨by decide, by simp⟩⟩
  have hend : endsOperand [⟨.keyword .FROM, "FROM", 15, 19⟩] = true := by decide
  obtain ⟨t, u, v, ht, hu, hrun, hv, hdraft⟩ :=
    composite_captured harrived hcomposite (hfaces.passes (by simp)) hend { kind := .dql }
  obtain rfl := Option.some.inj ht
  obtain rfl := Option.some.inj hu
  exact ⟨c, v, harrived, hrun, by rw [hv.isAt]; rfl, hdraft⟩

end SqlFront

import SqlFront.Proofs.Condition.Conjunction
import SqlFront.Proofs.Progress.Statement

/-!
# WHERE on conjunctions

The reader of WHERE moves past a whole conjunction. It collects the condition of every comparison
that has one, in the order of the comparisons, and nothing else.
-/

set_option autoImplicit false

namespace SqlFront

open SqlFront.Parser SqlFront.Clause

variable {rule : ShardingRule} {w v : Workspace Findings} {t : Token} {ts us more : List Token}

/-! ## Parentheses -/

def Opening (w : Workspace Findings) (us more : List Token) (total n k : ℕ)
    (v : Workspace Findings) : Prop :=
  ∃ closed : List Token, closed.length = n ∧ k + n = total ∧
    (∀ t ∈ closed, t.type = .symbol .leftParen) ∧ v.cursor.Passes (closed ++ us) more ∧
    v.draft = w.draft

theorem achieves_openParentheses {opens : List Token}
    (hopens : ∀ t ∈ opens, t.type = .symbol .leftParen)
    (hparen : frontType (us ++ more) ≠ .symbol .leftParen)
    (hselect : frontType (us ++ more) ≠ .keyword .SELECT)
    (hw : w.cursor.Passes (opens ++ us) more) :
    Achieves w openParentheses fun n v => n = opens.length ∧ v.cursor.Passes us more ∧
      v.draft = w.draft := by
  have hlt := hw.length_lt_moves
  rw [List.length_append] at hlt
  have hI : Opening w us more opens.length opens.length 0 w :=
    ⟨opens, rfl, by omega, hopens, hw, rfl⟩
  refine Settles.repeatFrom ?_ hI (by omega)
  rintro n k v ⟨closed, hn, hk, hclosed, hv, hd⟩
  apply settles_isAt.2
  rw [hv.isAt]
  cases closed with
  | nil =>
    rw [List.nil_append, beq_eq_false_iff_ne.2 hparen, if_neg (by simp)]
    exact Settles.pure ⟨by simpa [← hn] using hk, hv, hd⟩
  | cons t closed =>
    rw [List.forall_mem_cons] at hclosed
    obtain ⟨ht, hclosed⟩ := hclosed
    have hnext : frontType (closed ++ us ++ more) ≠ .keyword .SELECT := by
      cases closed with
      | nil => exact hselect
      | cons x closed => simp [hclosed x (by simp)]
    rw [List.cons_append, List.cons_append, frontType_cons, ht, beq_self_eq_true, if_pos rfl]
    apply settles_noSubQuery hv hnext
    rw [if_neg (by simp)]
    apply (achieves_advance hv).bind
    intro _ v₁ h₁
    simp only [List.length_cons] at hn
    exact Settles.pure ⟨closed.length, by omega, closed, rfl, by omega, hclosed, h₁.passes,
      h₁.draft.trans hd⟩

theorem achieves_closeParentheses {closing : List Token}
    (hclosing : ∀ t ∈ closing, t.type = .symbol .rightParen) {n : ℕ} (hn : closing.length ≤ n)
    (hend : closing.length = n ∨ frontType (us ++ more) ≠ .symbol .rightParen)
    (hw : w.cursor.Passes (closing ++ us) more) :
    Achieves w (closeParentheses n) fun m v => m = closing.length ∧ v.cursor.Passes us more ∧
      v.draft = w.draft := by
  induction n generalizing closing w with
  | zero =>
    obtain rfl := List.length_eq_zero_iff.1 (Nat.le_zero.1 hn)
    exact Settles.pure ⟨rfl, hw, rfl⟩
  | succ n ih =>
    unfold closeParentheses
    cases closing with
    | nil =>
      have hother : frontType (us ++ more) ∉ [TokenType.symbol .rightParen] := by
        rw [List.mem_singleton]
        exact hend.resolve_left (by simp)
      apply settles_noSkip hw hother
      exact Settles.pure ⟨rfl, hw, rfl⟩
    | cons t closing =>
      rw [List.forall_mem_cons] at hclosing
      simp only [List.length_cons, Nat.add_right_cancel_iff, Nat.add_le_add_iff_right] at hn hend
      apply settles_skipIf hw (by simp [hclosing.1])
      intro v₁ h₁
      rw [if_pos rfl]
      apply (ih hclosing.2 hn hend h₁.passes).bind
      rintro m v₂ ⟨rfl, hv₂, hd₂⟩
      exact Settles.pure ⟨rfl, hv₂, hd₂.trans h₁.draft⟩

/-! ## Comparisons -/

theorem endsOperand_closing {closing : List Token}
    (hclosing : ∀ t ∈ closing, t.type = .symbol .rightParen) (hm : endsOperand ts = true) :
    endsOperand (closing ++ ts) = true := by
  cases closing with
  | nil => exact hm
  | cons t closing => exact endsOperand_rightParen (hclosing t (by simp))

theorem endsComparison_closing {closing : List Token}
    (hclosing : ∀ t ∈ closing, t.type = .symbol .rightParen) (hm : endsComparison ts = true) :
    endsComparison (closing ++ ts) = true := by
  cases closing with
  | nil => exact hm
  | cons t closing =>
    have ht : t.type = .symbol .rightParen := hclosing t (by simp)
    simp [endsComparison, endsOperand_rightParen, ht]

theorem achieves_comparison {c : Conjunct} (hs : c.Spells us)
    (hw : w.cursor.Passes (us ++ ts) more) (hm : endsComparison (ts ++ more) = true) :
    Achieves w (comparison rule) fun _ v => v.cursor.Passes ts more ∧
      Collects w (placeholderCount c.operands)
        (c.condition? rule w.draft w.draft.placeholders).toList v := by
  obtain @⟨outer, inner, column, closing, test, ending, hopens, hcolumn, hclosing, hinner, htest,
    hending, houter⟩ := hs
  simp only [List.append_assoc] at hw
  rw [← List.append_assoc outer] at hw
  unfold comparison
  -- The column stands behind all of the parentheses that open.
  have hfront : ∃ t : Token, t.isName = true ∧
      frontType (column ++ (closing ++ (test ++ (ending ++ ts))) ++ more) = t.type := by
    rw [List.append_assoc]
    exact hcolumn.front _
  obtain ⟨t, ht, hfront⟩ := hfront
  apply (achieves_openParentheses hopens (hfront ▸ Token.not_leftParen_of_isName ht)
    (hfront ▸ Token.not_select_of_isName ht) hw).bind
  rintro n v₁ ⟨rfl, hv₁, hd₁⟩
  obtain ⟨hend, hclose⟩ := htest.ends (ending ++ ts ++ more)
  have hcolumnEnd : endsOperand (closing ++ (test ++ (ending ++ ts)) ++ more) = true := by
    simpa using endsOperand_closing hclosing (by simpa using hend)
  apply (achieves_column hcolumn hv₁ hcolumnEnd).bind
  rintro left v₂ ⟨rfl, hv₂, h₂⟩
  have hlength : (outer ++ inner).length = outer.length + closing.length := by simp [hinner]
  have hclosed := achieves_closeParentheses hclosing (n := (outer ++ inner).length) (by omega)
    (Or.inr (by simpa using hclose)) hv₂
  apply hclosed.bind
  rintro m v₃ ⟨rfl, hv₃, hd₃⟩
  have hm' : endsComparison (ending ++ ts ++ more) = true := by
    simpa using endsComparison_closing hending hm
  apply (achieves_comparisonOf htest hv₃ hm').bind
  rintro _ v₄ ⟨hv₄, h₄⟩
  have hended := achieves_closeParentheses hending (n := (outer ++ inner).length - closing.length)
    (by omega) (Or.inl (by omega)) hv₄
  apply hended.bind
  rintro m v₅ ⟨-, hv₅, hd₅⟩
  apply Settles.pure
  refine ⟨hv₅, ?_⟩
  have h₃ : Collects w 0 [] v₃ := ((Collects.of_eq hd₁).trans h₂).congr hd₃.symm
  have hcondition : testCondition? rule v₃.draft (columnExpression c.owner? c.name)
      c.operator? (operandValues v₃.draft.placeholders c.operands) =
      c.condition? rule w.draft w.draft.placeholders := by
    unfold Conjunct.condition? testCondition?
    rw [h₃.placeholders, findColumn?_congr h₃.tables]
    rfl
  rw [hcondition] at h₄
  have hall := h₃.trans (h₄.congr hd₅.symm)
  simpa using hall

/-! ## Conjunctions -/

theorem conjunctionConditions_append {f : Findings} {cs ds : List Conjunct} (n : ℕ) :
    conjunctionConditions rule f n (cs ++ ds) = conjunctionConditions rule f n cs ++
      conjunctionConditions rule f
        (n + placeholderCount (cs.flatMap Conjunct.operands)) ds := by
  induction cs generalizing n with
  | nil => rfl
  | cons c cs ih =>
    rw [List.cons_append, conjunctionConditions, ih, conjunctionConditions, List.flatMap_cons,
      placeholderCount_append, Nat.add_assoc, List.append_assoc]

def ConjunctsRead (rule : ShardingRule) (w : Workspace Findings) (cs : List Conjunct)
    (_ : List Unit) (v : Workspace Findings) : Prop :=
  Collects w (placeholderCount (cs.flatMap Conjunct.operands))
    (conjunctionConditions rule w.draft w.draft.placeholders cs) v

theorem conjunctRule (rule : ShardingRule) (w : Workspace Findings) (more : List Token) :
    ItemRule (.keyword .AND) Conjunct.Spells (comparison rule)
      (fun ts => endsComparison ts = true) (ConjunctsRead rule w)
      (fun _ => False) (fun _ => False) more := by
  constructor
  · intro c ts us before _ v hc hf hv hI
    apply (achieves_comparison hc hv hf).mono
    rintro _ v₁ ⟨hv₁, h⟩
    refine Or.inl ⟨hv₁, ?_⟩
    have hcondition : c.condition? rule v.draft v.draft.placeholders = c.condition? rule w.draft
        (w.draft.placeholders + placeholderCount (before.flatMap Conjunct.operands)) := by
      unfold Conjunct.condition? testCondition?
      rw [hI.placeholders, findColumn?_congr hI.tables]
    have hall := hI.trans h
    rw [hcondition] at hall
    unfold ConjunctsRead
    rw [conjunctionConditions_append, List.flatMap_append, placeholderCount_append]
    simpa [conjunctionConditions] using hall
  · intro ts before _ v v₁ h hI
    exact hI.congr h.draft.symm
  · intro s _ ts us hs _ _
    rw [List.cons_append]
    have hend : endsOperand (s :: (ts ++ us ++ more)) = true := endsOperand_keyword hs
    simp only [endsComparison, hend, frontType_cons, hs]
    rfl
  · exact fun _ h => h.elim

/-- A WHERE clause that is a conjunction is read to its end. Its conditions are added in the order
of its comparisons: one for each comparison of a sharding column by `=`, `IN` or `BETWEEN`, none
for any other. -/
theorem conjunction_collected {wh : Token} {cs : List Conjunct} (hwh : wh.type = .keyword .WHERE)
    (hcs : Joined (.keyword .AND) Conjunct.Spells cs ts) (hm : endsConjunction more = true)
    (hw : w.cursor.Passes (wh :: ts) more) :
    ∃ w', whereClause rule w = .ok () w' ∧ w'.cursor.Faces more ∧
      w'.draft.conditions =
        (conjunctionConditions rule w.draft w.draft.placeholders cs).foldl Conditions.add
          w.draft.conditions := by
  simp only [endsConjunction, Bool.and_eq_true, bne_iff_ne] at hm
  obtain ⟨⟨hend, hand⟩, hor⟩ := hm
  have hclause : Achieves w (whereClause rule) fun _ v => v.cursor.Passes [] more ∧
      ConjunctsRead rule w cs [] v := by
    unfold whereClause
    apply settles_skipIf hw (by simp [hwh])
    intro v hv
    rw [if_pos rfl]
    have hp : v.cursor.Passes (ts ++ []) more := by simpa using hv.passes
    have hend' : endsComparison ([] ++ more) = true := hend
    apply ((conjunctRule rule v more).separated hend' hand hcs hp (Collects.refl v)).bind
    intro _ v₁ h₁
    obtain ⟨hv₁, h⟩ := h₁.resolve_right id
    apply settles_isAt.2
    rw [hv₁.isAt, List.nil_append, beq_eq_false_iff_ne.2 hor, if_neg (by simp)]
    apply Settles.pure
    unfold ConjunctsRead Collects at *
    rw [hv.draft] at h
    exact ⟨hv₁, h⟩
  obtain ⟨_, w', hrun, hp, edits, hd⟩ := hclause.run
  refine ⟨w', hrun, by simpa using hp.faces, ?_⟩
  rw [hd]
  rfl

theorem conjunction_collected_mixed :
    ∃ c w', (Cursor.ofText .mysql
        "WHERE (user_id) = ? AND o.status > 3 AND (order_id IN (1, ?))").advance = .ok c ∧
      whereClause ⟨[("t_order", ⟨["user_id", "order_id"], none⟩)], none⟩
        ⟨c, { kind := .dql, tables := ⟨[⟨"t_order", some "o"⟩]⟩ }⟩ = .ok () w' ∧
      w'.draft.conditions = ⟨[⟨[⟨⟨"user_id", "t_order"⟩, .equal, [.placeholder 0]⟩,
        ⟨⟨"order_id", "t_order"⟩, .oneOf, [.number (.integer 1), .placeholder 1]⟩]⟩]⟩ := by
  have hfirst : Conjunct.Spells ⟨none, ⟨.literal .identifier, "user_id", 7, 14⟩, some .equal,
      [⟨.symbol .question, "?", 18, 19⟩]⟩ _ :=
    .intro (o := []) (i := [⟨.symbol .leftParen, "(", 6, 7⟩])
      (r := [⟨.symbol .rightParen, ")", 14, 15⟩]) (e := []) (by decide) (.alone rfl)
      (by decide) rfl (.equal (e := ⟨.symbol .equal, "=", 16, 17⟩) rfl rfl) (by decide) rfl
  have hsecond : Conjunct.Spells ⟨some ⟨.literal .identifier, "o", 24, 25⟩,
      ⟨.literal .identifier, "status", 26, 32⟩, none, [⟨.literal .int, "3", 35, 36⟩]⟩ _ :=
    .intro (o := []) (i := []) (r := []) (e := []) (by decide)
      (.owned (d := ⟨.symbol .dot, ".", 25, 26⟩) rfl rfl rfl) (by decide) rfl
      (.ordered (o := ⟨.symbol .greater, ">", 33, 34⟩) (by decide) (by decide +kernel))
      (by decide) rfl
  have hthird : Conjunct.Spells ⟨none, ⟨.literal .identifier, "order_id", 42, 50⟩, some .oneOf,
      [⟨.literal .int, "1", 55, 56⟩, ⟨.symbol .question, "?", 58, 59⟩]⟩ _ :=
    .intro (o := [⟨.symbol .leftParen, "(", 41, 42⟩]) (i := []) (r := [])
      (e := [⟨.symbol .rightParen, ")", 60, 61⟩]) (by decide) (.alone rfl) (by decide) rfl
      (.oneOf (i := ⟨.keyword .IN, "IN", 51, 53⟩) (l := ⟨.symbol .leftParen, "(", 54, 55⟩)
        (r := ⟨.symbol .rightParen, ")", 59, 60⟩) rfl rfl
        (.cons (s := ⟨.symbol .comma, ",", 56, 57⟩) ⟨by decide +kernel, rfl⟩ rfl
          (.single ⟨by decide +kernel, rfl⟩)) rfl) (by decide) rfl
  have hcs : Joined (.keyword .AND) Conjunct.Spells _ _ :=
    .cons hfirst (s := ⟨.keyword .AND, "AND", 20, 23⟩) rfl
      (.cons hsecond (s := ⟨.keyword .AND, "AND", 37, 40⟩) rfl (.single hthird))
  have htokens : (TokenStream.ofText .mysql
      "WHERE (user_id) = ? AND o.status > 3 AND (order_id IN (1, ?))".toList).tokens =
      [⟨.keyword .WHERE, "WHERE", 0, 5⟩, ⟨.symbol .leftParen, "(", 6, 7⟩,
        ⟨.literal .identifier, "user_id", 7, 14⟩, ⟨.symbol .rightParen, ")", 14, 15⟩,
        ⟨.symbol .equal, "=", 16, 17⟩, ⟨.symbol .question, "?", 18, 19⟩,
        ⟨.keyword .AND, "AND", 20, 23⟩, ⟨.literal .identifier, "o", 24, 25⟩,
        ⟨.symbol .dot, ".", 25, 26⟩, ⟨.literal .identifier, "status", 26, 32⟩,
        ⟨.symbol .greater, ">", 33, 34⟩, ⟨.literal .int, "3", 35, 36⟩,
        ⟨.keyword .AND, "AND", 37, 40⟩, ⟨.symbol .leftParen, "(", 41, 42⟩,
        ⟨.literal .identifier, "order_id", 42, 50⟩, ⟨.keyword .IN, "IN", 51, 53⟩,
        ⟨.symbol .leftParen, "(", 54, 55⟩, ⟨.literal .int, "1", 55, 56⟩,
        ⟨.symbol .comma, ",", 56, 57⟩, ⟨.symbol .question, "?", 58, 59⟩,
        ⟨.symbol .rightParen, ")", 59, 60⟩, ⟨.symbol .rightParen, ")", 60, 61⟩] := by
    decide +kernel
  obtain ⟨c, hc⟩ : ∃ c, (Cursor.ofText .mysql
      "WHERE (user_id) = ? AND o.status > 3 AND (order_id IN (1, ?))").advance = .ok c :=
    ⟨_, Cursor.advance_ok.2 ⟨_, Cursor.peek_ok.2 (Or.inl (congrArg List.head? htokens)), rfl⟩⟩
  have hfaces := Cursor.ofText_faces hc
  rw [htokens] at hfaces
  have hending : ∃ t, c.ahead.ending = .ok t := by
    rw [Cursor.advance_ending hc]
    exact ⟨Token.atEnd 61, by decide +kernel⟩
  have hread : ∃ w', whereClause ⟨[("t_order", ⟨["user_id", "order_id"], none⟩)], none⟩
      ⟨c, { kind := .dql, tables := ⟨[⟨"t_order", some "o"⟩]⟩ }⟩ = .ok () w' ∧
      w'.cursor.Faces [] ∧ w'.draft.conditions = _ :=
    conjunction_collected rfl hcs rfl ⟨hfaces, fun _ => hending⟩
  obtain ⟨w', hrun, -, hconditions⟩ := hread
  refine ⟨c, w', hc, hrun, ?_⟩
  rw [hconditions]
  dsimp only
  decide +kernel

end SqlFront

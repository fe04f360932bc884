import SqlFront.Clause.Where
import SqlFront.Proofs.Collecting
import SqlFront.Proofs.Condition.Formula
import SqlFront.Proofs.Operand
import SqlFront.Proofs.Progress.Where

/-!
# Reading a comparison

The reader of a comparison passes its tokens and adds at most the condition that the comparison
stands for.
-/

set_option autoImplicit false

namespace SqlFront

open SqlFront.Parser SqlFront.Clause

variable {w w' : Workspace Findings} {t : Token} {us ts more : List Token} {e : Expression}

/-! ## Names and constants -/

theorem Token.isWord_of_isName (h : t.isName = true) : t.isWord = true := by
  unfold isName at h
  unfold isWord
  cases ht : t.type <;> simp_all

theorem Token.isWord_of_isConstant (h : t.isConstant = true) : t.isWord = true := by
  unfold isConstant at h
  unfold isWord
  cases ht : t.type <;> simp_all

theorem Token.not_select_of_isConstant (h : t.isConstant = true) :
    t.type ≠ .keyword .SELECT := by
  intro ht
  simp [isConstant, ht] at h

theorem expression_constant (hw : w.cursor.Faces (t :: more)) (ht : t.isConstant = true)
    (hm : endsOperand more = true) (h : expression w = .ok e w') :
    e = literal t ∧ w'.cursor.Faces more ∧ w'.draft.conditions = w.draft.conditions := by
  obtain ⟨v, hv, hc, hd⟩ := expression_operands h
  obtain ⟨rfl, hv⟩ := operandChain_alone hw (Token.isWord_of_isConstant ht) hm hv
  exact ⟨rfl, by rwa [hc], hd⟩

namespace Comparison

theorem unquoted_unquoted (s : String) : unquoted (unquoted s) = unquoted s := by
  simp [unquoted, List.filter_filter]

/-- The left side of a comparison names its column, if any. -/
theorem SpellsColumn.expression {o? : Option Token} {n : Token} (hs : SpellsColumn o? n ts)
    (hw : w.cursor.Faces (ts ++ more)) (hm : endsOperand more = true)
    (h : expression w = .ok e w') : w'.cursor.Faces more ∧
      w'.draft.conditions = w.draft.conditions ∧
      ∀ f column, findColumn? f e = some column → column.name = unquoted n.literals := by
  obtain ⟨v, hv, hc, hd⟩ := expression_operands h
  rw [hc]
  cases hs with
  | alone hn =>
    obtain ⟨rfl, hv'⟩ := operandChain_alone hw (Token.isWord_of_isName hn) hm hv
    refine ⟨hv', hd, fun f column hf => ?_⟩
    unfold Token.isName at hn
    split at hn
    · next ht =>
      simp only [literal, ht, findColumn?, Option.map_eq_some_iff] at hf
      obtain ⟨t, -, rfl⟩ := hf
      exact unquoted_unquoted _
    · next ht => simp [literal, ht, findColumn?] at hf
    · next ht => simp [literal, ht, findColumn?] at hf
    · cases hn
  | owned ho hdot hn =>
    obtain ⟨rfl, hv'⟩ := operandChain_member hw (Token.isWord_of_isName ho) hdot hm hv
    refine ⟨hv', hd, fun f column hf => ?_⟩
    simp only [findColumn?, Option.map_eq_some_iff] at hf
    obtain ⟨t, -, rfl⟩ := hf
    rfl

/-! ## Constants -/

theorem SpellsConstants.not_select {vs : List Token} (hs : SpellsConstants vs ts) :
    frontType (ts ++ more) ≠ .keyword .SELECT := by
  cases hs with
  | single hc => exact Token.not_select_of_isConstant hc
  | cons hc => exact Token.not_select_of_isConstant hc

theorem SpellsConstants.separated {vs : List Token} {es : List Expression}
    (hs : SpellsConstants vs ts) (hw : w.cursor.Faces (ts ++ more))
    (hm : endsOperand more = true) (hcomma : frontType more ≠ .symbol .comma)
    (h : Separated [.symbol .comma] Clause.expression w es w') : es = vs.map literal ∧
      w'.cursor.Faces more ∧ w'.draft.conditions = w.draft.conditions := by
  induction hs generalizing w es with
  | single hc =>
    cases h with
    | last hx hat =>
      obtain ⟨rfl, hw', hd⟩ := expression_constant hw hc hm hx
      exact ⟨rfl, hw', hd⟩
    | next hx hat =>
      obtain ⟨-, hw', -⟩ := expression_constant hw hc hm hx
      rw [hw'.isAtAny] at hat
      simp [hcomma] at hat
  | @cons v comma vs ts hc ht _ ih =>
    have hend : endsOperand (comma :: (ts ++ more)) = true := by
      simp [endsOperand, operators, isNegativeNumber, ht]
    rw [List.cons_append, List.cons_append] at hw
    cases h with
    | last hx hat =>
      obtain ⟨-, hw', -⟩ := expression_constant hw hc hend hx
      rw [hw'.isAtAny, frontType_cons, ht] at hat
      cases hat
    | next hx hat hadv hxs =>
      obtain ⟨rfl, hw', hd⟩ := expression_constant hw hc hend hx
      obtain ⟨rfl, hw', hd'⟩ := ih (hw'.advance hadv) hxs
      exact ⟨rfl, hw', hd'.trans hd⟩

/-! ## Relations -/

def Adds (c : Comparison) (w w' : Workspace Findings) : Prop :=
  ∀ x ∈ w'.draft.conditions.toList, x ∈ w.draft.conditions.toList ∨ ∃ table, x = c.condition table

theorem recordCondition_adds {rule : ShardingRule} {c : Comparison} {u : Unit}
    (he : ∀ f column, findColumn? f e = some column → column.name = unquoted c.name.literals)
    (h : recordCondition rule e c.operator (c.constants.map literal) w = .ok u w') :
    w'.cursor = w.cursor ∧ c.Adds w w' := by
  obtain rfl := recordCondition_ok.1 h
  refine ⟨rfl, fun x hx => ?_⟩
  revert hx
  cases hf : findColumn? w.draft e with
  | none => exact Or.inl
  | some column =>
    simp only
    split
    · intro hx
      rcases Conditions.mem_add.1 hx with hx | rfl
      · exact Or.inl hx
      · exact Or.inr ⟨column.table, by rw [condition, ← he _ _ hf]⟩
    · exact Or.inl

theorem inValues_constants {vs : List Token} {l r : Token} {es? : Option (List Expression)}
    (hs : SpellsConstants vs ts) (hr : r.type = .symbol .rightParen)
    (hw : w.cursor.Faces (l :: (ts ++ r :: more))) (h : inValues w = .ok es? w') : es? = some (vs.map literal) ∧ w'.cursor.Faces more ∧
      w'.draft.conditions = w.draft.conditions := by
  replace h := isAtSubQuery_other hw (Or.inr hs.not_select) h
  obtain ⟨_, w₁, h₁, h⟩ := bind_ok.1 h
  obtain ⟨hw₁, hd₁⟩ := expect_front hw h₁
  obtain ⟨es, w₂, h₂, h⟩ := bind_ok.1 h
  obtain ⟨rfl, hw₂, hd₂⟩ := hs.separated hw₁
    (by simp [endsOperand, operators, isNegativeNumber, hr]) (by simp [hr]) (separated_run h₂)
  obtain ⟨_, w₃, h₃, h⟩ := bind_ok.1 h
  obtain ⟨hw₃, hd₃⟩ := expect_front hw₂ h₃
  obtain ⟨rfl, rfl⟩ := pure_ok.1 h
  exact ⟨rfl, hw₃, by rw [hd₃, hd₂, hd₁]⟩

theorem betweenValues_constants {low a high : Token} {es : List Expression}
    (hlow : low.isConstant = true) (ha : a.type = .keyword .AND) (hhigh : high.isConstant = true)
    (hw : w.cursor.Faces (low :: a :: high :: more)) (hm : endsOperand more = true)
    (h : betweenValues w = .ok es w') : es = [literal low, literal high] ∧
      w'.cursor.Faces more ∧ w'.draft.conditions = w.draft.conditions := by
  obtain ⟨_, w₁, h₁, h⟩ := bind_ok.1 h
  obtain ⟨rfl, hw₁, hd₁⟩ := expression_constant hw hlow
    (by simp [endsOperand, operators, isNegativeNumber, ha]) h₁
  obtain ⟨_, w₂, h₂, h⟩ := bind_ok.1 h
  obtain ⟨hw₂, hd₂⟩ := expect_front hw₁ h₂
  obtain ⟨_, w₃, h₃, h⟩ := bind_ok.1 h
  obtain ⟨rfl, hw₃, hd₃⟩ := expression_constant hw₂ hhigh hm h₃
  obtain ⟨rfl, rfl⟩ := pure_ok.1 h
  exact ⟨rfl, hw₃, by rw [hd₃, hd₂, hd₁]⟩

theorem Adds.of_eq {c : Comparison} {w₁ : Workspace Findings}
    (hd : w₁.draft.conditions = w.draft.conditions) (h : c.Adds w₁ w') : c.Adds w w' := by
  intro x hx
  rw [← hd]
  exact h x hx

theorem comparisonOf_adds {rule : ShardingRule} {c : Comparison} {u : Unit}
    (hs : SpellsRelation c.operator c.constants ts) (hw : w.cursor.Faces (ts ++ more))
    (hm : endsOperand more = true)
    (he : ∀ f column, findColumn? f e = some column → column.name = unquoted c.name.literals)
    (h : comparisonOf rule e w = .ok u w') : w'.cursor.Faces more ∧ c.Adds w w' := by
  obtain ⟨o?, n, op, vs⟩ := c
  cases hs with
  | equal ht hv =>
    obtain ⟨b, w₁, hb, h⟩ := bind_ok.1 h
    obtain ⟨rfl, hw₁, hd₁⟩ := skipIf_front hw (by simp [ht]) hb
    obtain ⟨_, w₂, hx, h⟩ := bind_ok.1 h
    obtain ⟨rfl, hw₂, hd₂⟩ := expression_constant hw₁ hv hm hx
    obtain ⟨hc, ha⟩ := recordCondition_adds (c := ⟨o?, n, .equal, [_]⟩) he h
    exact ⟨by rwa [hc], ha.of_eq (by rw [hd₂, hd₁])⟩
  | @oneOf i l r vs ts ht _ hr hvs =>
    replace h := skipIf_other hw (by simp [ht]) h
    obtain ⟨b, w₁, hb, h⟩ := bind_ok.1 h
    obtain ⟨rfl, hw₁, hd₁⟩ := skipIf_front hw (by simp [ht]) hb
    obtain ⟨_, w₂, hx, h⟩ := bind_ok.1 h
    obtain ⟨rfl, hw₂, hd₂⟩ := inValues_constants hvs hr (by simpa using hw₁) hx
    obtain ⟨hc, ha⟩ := recordCondition_adds (c := ⟨o?, n, .oneOf, vs⟩) he h
    exact ⟨by rwa [hc], ha.of_eq (by rw [hd₂, hd₁])⟩
  | between ht hlow hand hhigh =>
    replace h := skipIf_other hw (by simp [ht]) h
    replace h := skipIf_other hw (by simp [ht]) h
    obtain ⟨b, w₁, hb, h⟩ := bind_ok.1 h
    obtain ⟨rfl, hw₁, hd₁⟩ := skipIf_front hw (by simp [ht]) hb
    obtain ⟨_, w₂, hx, h⟩ := bind_ok.1 h
    obtain ⟨rfl, hw₂, hd₂⟩ := betweenValues_constants hlow hand hhigh hw₁ hm hx
    obtain ⟨hc, ha⟩ := recordCondition_adds (c := ⟨o?, n, .between, [_, _]⟩) he h
    exact ⟨by rwa [hc], ha.of_eq (by rw [hd₂, hd₁])⟩

end Comparison

/-!
## Columns

A column is a name or a member of an owner, and it is read as the one or the other.
-/

def columnExpression (owner? : Option Token) (name : Token) : Expression :=
  match owner? with
  | some owner => .property owner.literals name.literals
  | none => literal name

def columnTitle (owner? : Option Token) (name : Token) : String :=
  if owner?.isNone && name.type.isKeyword then name.literals else unquoted name.literals

theorem columnExpression_title (owner? : Option Token) {name : Token} (hn : name.isName = true)
    (hc : name.type ≠ .literal .chars) :
    (columnExpression owner? name).columnName? = some (columnTitle owner? name) := by
  unfold columnExpression columnTitle
  cases owner? with
  | some owner => rfl
  | none =>
    unfold Token.isName at hn
    split at hn
    · next ht =>
      simp [literal, ht, Expression.columnName?, TokenType.isKeyword, TokenType.keyword?,
        Comparison.unquoted_unquoted]
    · next ht => exact (hc ht).elim
    · next ht =>
      simp [literal, ht, Expression.columnName?, TokenType.isKeyword, TokenType.keyword?]
    · cases hn

theorem columnExpression_name (owner? : Option Token) {name : Token} (hn : name.isName = true) :
    (columnExpression owner? name).columnName? = none ∨
      (columnExpression owner? name).columnName? = some (columnTitle owner? name) := by
  by_cases hc : name.type = .literal .chars
  · cases owner? with
    | some owner => exact Or.inr rfl
    | none => exact Or.inl (by simp [columnExpression, literal, hc, Expression.columnName?])
  · exact Or.inr (columnExpression_title owner? hn hc)

theorem achieves_column {owner? : Option Token} {name : Token}
    (hs : Comparison.SpellsColumn owner? name us) (hw : w.cursor.Passes (us ++ ts) more)
    (hm : endsOperand (ts ++ more) = true) :
    Achieves w expression fun e v => e = columnExpression owner? name ∧
      v.cursor.Passes ts more ∧ Collects w 0 [] v := by
  cases hs with
  | alone hn =>
    have hword := Token.isWord_of_isName hn
    simp only [Token.isWord, Bool.and_eq_true, bne_iff_ne] at hword
    apply (achieves_expression (achieves_operand hw hword.2 hm)).mono
    rintro e v ⟨rfl, hv, h⟩
    rw [placeholderCount_of_ne hword.1] at h
    exact ⟨if_neg hword.1, hv, h⟩
  | owned ho hd hn =>
    exact achieves_expression (achieves_member hw (Token.isWord_of_isName ho) hd hm)

end SqlFront

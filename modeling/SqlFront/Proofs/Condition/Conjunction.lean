import SqlFront.Proofs.Condition.Comparison
import SqlFront.Proofs.Condition.Reading

/-!
# Conjunctions

A conjunction joins comparisons by AND. Each tests a column with literals and placeholders, and
parentheses may stand around the column and around the whole comparison. The conditions of a
conjunction are those of its comparisons that test a sharding column by `=`, `IN` or `BETWEEN`.
-/

set_option autoImplicit false

namespace SqlFront

open SqlFront.Parser SqlFront.Clause

def Token.isOperand (t : Token) : Bool :=
  t.type == .symbol .question || (literal t).isShardingValue

abbrev SpellsOperands : List Token → List Token → Prop :=
  Joined (.symbol .comma) fun t ts => t.isOperand = true ∧ ts = [t]

def operandValues : ℕ → List Token → List Expression
  | _, [] => []
  | n, t :: ts => operandValue n t :: operandValues (n + placeholderCount [t]) ts

inductive SpellsTest : Option ConditionOperator → List Token → List Token → Prop
  | equal {e v : Token} : e.type = .symbol .equal → v.isOperand = true →
      SpellsTest (some .equal) [v] [e, v]
  | oneOf {i l r : Token} {vs ts : List Token} : i.type = .keyword .IN →
      l.type = .symbol .leftParen → SpellsOperands vs ts → r.type = .symbol .rightParen →
      SpellsTest (some .oneOf) vs (i :: l :: (ts ++ [r]))
  | between {b low a high : Token} : b.type = .keyword .BETWEEN → low.isOperand = true →
      a.type = .keyword .AND → high.isOperand = true →
      SpellsTest (some .between) [low, high] [b, low, a, high]
  | ordered {o v : Token} : o.type ∈ otherComparisons → v.isOperand = true →
      SpellsTest none [v] [o, v]
  | isNull {i n : Token} : i.type = .keyword .IS → n.type = .keyword .NULL →
      SpellsTest none [] [i, n]
  | isNotNull {i o n : Token} : i.type = .keyword .IS → o.type = .keyword .NOT →
      n.type = .keyword .NULL → SpellsTest none [] [i, o, n]
  | like {l v : Token} : l.type ∈ patternWords → v.isOperand = true → SpellsTest none [v] [l, v]
  | notLike {o l v : Token} : o.type = .keyword .NOT → l.type ∈ patternWords →
      v.isOperand = true → SpellsTest none [v] [o, l, v]
  | notIn {o i l r : Token} {vs ts : List Token} : o.type = .keyword .NOT →
      i.type = .keyword .IN → l.type = .symbol .leftParen → SpellsOperands vs ts →
      r.type = .symbol .rightParen → SpellsTest none vs (o :: i :: l :: (ts ++ [r]))
  | notBetween {o b low a high : Token} : o.type = .keyword .NOT → b.type = .keyword .BETWEEN →
      low.isOperand = true → a.type = .keyword .AND → high.isOperand = true →
      SpellsTest none [low, high] [o, b, low, a, high]

def testCondition? (rule : ShardingRule) (f : Findings) (left : Expression)
    (operator? : Option ConditionOperator) (values : List Expression) : Option Condition :=
  match operator?, findColumn? f left with
  | some operator, some column =>
    if rule.isShardingColumn column then some ⟨column, operator, values⟩ else none
  | _, _ => none

structure Conjunct where
  owner? : Option Token
  name : Token
  operator? : Option ConditionOperator
  operands : List Token

namespace Conjunct

/-- As many parentheses close behind the column and behind the comparison as open in front. -/
inductive Spells (c : Conjunct) : List Token → Prop
  | intro {o i us r vs e : List Token} : (∀ t ∈ o ++ i, t.type = .symbol .leftParen) →
      Comparison.SpellsColumn c.owner? c.name us →
      (∀ t ∈ r, t.type = .symbol .rightParen) → r.length = i.length →
      SpellsTest c.operator? c.operands vs →
      (∀ t ∈ e, t.type = .symbol .rightParen) → e.length = o.length →
      Spells c ((o ++ i) ++ (us ++ (r ++ (vs ++ e))))

def condition? (rule : ShardingRule) (f : Findings) (n : ℕ) (c : Conjunct) : Option Condition :=
  testCondition? rule f (columnExpression c.owner? c.name) c.operator? (operandValues n c.operands)

end Conjunct

/-- The conditions of comparisons in their order, where `n` placeholders stand before them. -/
def conjunctionConditions (rule : ShardingRule) (f : Findings) : ℕ → List Conjunct → List Condition
  | _, [] => []
  | n, c :: cs =>
    (c.condition? rule f n).toList ++
      conjunctionConditions rule f (n + placeholderCount c.operands) cs

def endsComparison (ts : List Token) : Bool :=
  endsOperand ts && frontType ts != .keyword .ESCAPE

def endsConjunction (ts : List Token) : Bool :=
  endsComparison ts && frontType ts != .keyword .AND && frontType ts != .keyword .OR

variable {rule : ShardingRule} {w v : Workspace Findings} {t : Token} {ts us more : List Token}

/-! ## Operands -/

theorem operandValues_append (n : ℕ) : operandValues n (us ++ ts) =
    operandValues n us ++ operandValues (n + placeholderCount us) ts := by
  induction us generalizing n with
  | nil => rfl
  | cons u us ih =>
    have hcount : placeholderCount (u :: us) = placeholderCount [u] + placeholderCount us :=
      placeholderCount_cons
    rw [List.cons_append, operandValues, ih, operandValues, hcount, Nat.add_assoc]
    rfl

theorem Token.isOperand_type (h : t.isOperand = true) : t.type ≠ .symbol .leftParen ∧
    t.type ≠ .symbol .rightParen ∧ t.type ≠ .endOfText ∧ t.type ≠ .keyword .SELECT := by
  unfold isOperand at h
  refine ⟨?_, ?_, ?_, ?_⟩ <;>
  · intro ht
    simp [ht, literal, Expression.isShardingValue] at h

theorem operandValue_isShardingValue (h : t.isOperand = true) (n : ℕ) :
    (operandValue n t).isShardingValue = true := by
  unfold operandValue
  split
  · rfl
  · next hq =>
    unfold Token.isOperand at h
    simpa [hq] using h

theorem achieves_value (ht : t.isOperand = true) (hw : w.cursor.Passes (t :: ts) more)
    (hm : endsOperand (ts ++ more) = true) :
    Achieves w expression fun e v => e = operandValue w.draft.placeholders t ∧
      v.cursor.Passes ts more ∧ Collects w (placeholderCount [t]) [] v :=
  achieves_expression (achieves_operand hw (Token.isOperand_type ht).1 hm)

def OperandsRead (w : Workspace Findings) (ts : List Token) (es : List Expression)
    (v : Workspace Findings) : Prop :=
  es = operandValues w.draft.placeholders ts ∧ Collects w (placeholderCount ts) [] v

theorem operandRule (w : Workspace Findings) (more : List Token) :
    ItemRule (.symbol .comma) (fun t ts => t.isOperand = true ∧ ts = [t]) expression
      (fun ts => endsOperand ts = true) (OperandsRead w)
      (fun _ => False) (fun _ => False) more := by
  constructor
  · rintro t _ us before es v ⟨ht, rfl⟩ hf hv ⟨rfl, hI⟩
    apply (achieves_value ht hv hf).mono
    rintro e v₁ ⟨rfl, hp, h⟩
    refine Or.inl ⟨hp, ?_, ?_⟩
    · rw [operandValues_append, hI.placeholders]
      rfl
    · rw [placeholderCount_append]
      exact hI.trans h
  · rintro ts before es v v₁ h ⟨rfl, hI⟩
    exact ⟨rfl, hI.congr h.draft.symm⟩
  · intro s _ ts us hs _ _
    exact endsOperand_comma hs
  · exact fun _ h => h.elim

theorem achieves_values {vs : List Token} (hvs : SpellsOperands vs ts)
    (hm : endsOperand (us ++ more) = true) (hc : frontType (us ++ more) ≠ .symbol .comma)
    (hw : w.cursor.Passes (ts ++ us) more) :
    Achieves w (commaSeparated expression) fun es v => v.cursor.Passes us more ∧
      OperandsRead w vs es v := by
  have hread := (operandRule w more).separated hm hc hvs hw ⟨rfl, Collects.refl w⟩
  exact hread.mono fun _ _ h => h.resolve_right id

theorem closes_of_operands {vs : List Token} {r : Token} (hvs : SpellsOperands vs ts)
    (hr : r.type = .symbol .rightParen) : Closes 0 (ts ++ [r]) := by
  induction hvs with
  | single h =>
    obtain ⟨ht, rfl⟩ := h
    obtain ⟨hl, hr', he, -⟩ := Token.isOperand_type ht
    exact .token hl hr' he (.last hr)
  | cons h hs _ ih =>
    obtain ⟨ht, rfl⟩ := h
    obtain ⟨hl, hr', he, -⟩ := Token.isOperand_type ht
    exact .token hl hr' he (.token (by simp [hs]) (by simp [hs]) (by simp [hs]) ih)

theorem placeholderCount_operands {vs : List Token} (hvs : SpellsOperands vs ts) :
    placeholderCount ts = placeholderCount vs := by
  induction hvs with
  | single h => rw [h.2]
  | @cons x xs s _ us h hs _ ih =>
    have hcomma : placeholderCount [s] = 0 := placeholderCount_of_ne (by simp [hs])
    rw [h.2, placeholderCount_append, placeholderCount_cons (t := s), hcomma, ih, Nat.zero_add]
    exact placeholderCount_cons.symm

/-! ## Tests -/

theorem achieves_recordCondition {left : Expression} {op : ConditionOperator}
    {values : List Expression} (hv : values.all Expression.isShardingValue = true) :
    Achieves w (recordCondition rule left op values) fun _ v => v.cursor = w.cursor ∧
      Collects w 0 (testCondition? rule w.draft left (some op) values).toList v := by
  apply (settles_of_ok (recordCondition_ok (u := ()).2 rfl)).2
  refine ⟨rfl, w.draft.edits, ?_⟩
  unfold testCondition?
  cases findColumn? w.draft left with
  | none => rfl
  | some column =>
    simp only [hv, Bool.true_and]
    split <;> rfl

theorem achieves_inValues {vs : List Token} {l r : Token} (hl : l.type = .symbol .leftParen)
    (hvs : SpellsOperands vs us) (hr : r.type = .symbol .rightParen)
    (hw : w.cursor.Passes (l :: (us ++ r :: ts)) more) :
    Achieves w inValues fun es? v => es? = some (operandValues w.draft.placeholders vs) ∧
      v.cursor.Passes ts more ∧ Collects w (placeholderCount vs) [] v := by
  have hselect : frontType (us ++ r :: ts ++ more) ≠ .keyword .SELECT := by
    cases hvs with
    | single h | cons h =>
      obtain ⟨hx, rfl⟩ := h
      exact (Token.isOperand_type hx).2.2.2
  have hend : endsOperand (r :: ts ++ more) = true := endsOperand_rightParen hr
  unfold inValues
  apply settles_noSubQuery hw hselect
  rw [if_neg (by simp)]
  apply (achieves_expect hw hl).bind
  intro _ v₁ h₁
  apply (achieves_values hvs hend (by simp [hr]) h₁.passes).bind
  rintro es v₂ ⟨hv₂, rfl, h₂⟩
  apply (achieves_expect hv₂ hr).bind
  intro _ v₃ h₃
  apply Settles.pure
  refine ⟨by rw [h₁.draft], h₃.passes, ?_⟩
  have h₁₂ := (Collects.of_eq h₁.draft).trans (h₂.congr h₃.draft.symm)
  simpa using h₁₂

theorem achieves_betweenValues {low a high : Token} (hlow : low.isOperand = true)
    (ha : a.type = .keyword .AND) (hhigh : high.isOperand = true)
    (hw : w.cursor.Passes (low :: a :: high :: ts) more) (hm : endsOperand (ts ++ more) = true) :
    Achieves w betweenValues fun es v => es = operandValues w.draft.placeholders [low, high] ∧
      v.cursor.Passes ts more ∧ Collects w (placeholderCount [low, high]) [] v := by
  unfold betweenValues
  have hand : endsOperand (a :: high :: ts ++ more) = true := endsOperand_keyword ha
  apply (achieves_value hlow hw hand).bind
  rintro e v ⟨rfl, hv, hlow⟩
  apply (achieves_expect hv ha).bind
  intro _ v₁ h₁
  apply (achieves_value hhigh h₁.passes hm).bind
  rintro e v₂ ⟨rfl, hv₂, hhigh⟩
  apply Settles.pure
  have hlow := hlow.congr h₁.draft.symm
  refine ⟨?_, hv₂, ?_⟩
  · rw [hlow.placeholders]
    rfl
  · rw [placeholderCount_cons]
    exact hlow.trans hhigh

theorem achieves_skippedValues {vs : List Token} {l r : Token} (hl : l.type = .symbol .leftParen)
    (hvs : SpellsOperands vs us) (hr : r.type = .symbol .rightParen)
    (hw : w.cursor.Passes (l :: (us ++ r :: ts)) more) :
    Achieves w skipParentheses fun _ v => v.cursor.Passes ts more ∧
      Collects w (placeholderCount vs) [] v := by
  have hp : w.cursor.Passes (l :: (us ++ [r]) ++ ts) more := by simpa using hw
  apply (achieves_skipParentheses hl (closes_of_operands hvs hr) hp).mono
  rintro s v ⟨-, hv, h⟩
  refine ⟨hv, ?_⟩
  have hcount : placeholderCount (l :: (us ++ [r])) = placeholderCount vs := by
    rw [placeholderCount_cons, placeholderCount_append, placeholderCount_operands hvs,
      placeholderCount_of_ne (by simp [hl]), placeholderCount_of_ne (by simp [hr]), Nat.zero_add,
      Nat.add_zero]
  exact hcount ▸ h.collects

theorem achieves_pattern (ht : t.isOperand = true) (hw : w.cursor.Passes (t :: ts) more)
    (hm : endsComparison (ts ++ more) = true) :
    Achieves w pattern fun _ v =>
      v.cursor.Passes ts more ∧ Collects w (placeholderCount [t]) [] v := by
  simp only [endsComparison, Bool.and_eq_true, bne_iff_ne] at hm
  unfold pattern
  apply (achieves_value ht hw hm.1).bind
  rintro e v ⟨-, hv, h⟩
  apply settles_noSkip hv (by simpa using hm.2)
  exact Settles.pure ⟨hv, h⟩

def Tested (rule : ShardingRule) (w : Workspace Findings) (left : Expression)
    (operator? : Option ConditionOperator) (vs : List Token) (ts more : List Token)
    (v : Workspace Findings) : Prop :=
  v.cursor.Passes ts more ∧ Collects w (placeholderCount vs)
    (testCondition? rule w.draft left operator?
      (operandValues w.draft.placeholders vs)).toList v

theorem findColumn?_congr {f g : Findings} (h : f.tables = g.tables) (e : Expression) :
    findColumn? f e = findColumn? g e := by
  cases e <;> simp [findColumn?, h]

theorem Tested.of_draft {left : Expression} {op? : Option ConditionOperator} {vs : List Token}
    {v₁ : Workspace Findings} (hd : v₁.draft = w.draft) (h : Tested rule v₁ left op? vs ts more v) :
    Tested rule w left op? vs ts more v := by
  unfold Tested Collects at *
  rw [hd] at h
  exact h

theorem settles_tested {left : Expression} {op? : Option ConditionOperator} {vs : List Token}
    {xs : List TokenType} {f : Bool → Parser Findings Unit}
    (hw : w.cursor.Passes (t :: us) more) (ht : t.type ∈ xs)
    (h : ∀ v, v.cursor.Passes us more →
      Achieves v (f true) fun _ v' => Tested rule v left op? vs ts more v') :
    Achieves w (skipIf xs >>= f) fun _ v' => Tested rule w left op? vs ts more v' := by
  apply settles_skipIf hw ht
  intro v hv
  exact (h v hv.passes).mono fun _ _ h => h.of_draft hv.draft

theorem operandValues_isShardingValue {vs : List Token} (hvs : ∀ t ∈ vs, t.isOperand = true)
    (n : ℕ) : (operandValues n vs).all Expression.isShardingValue = true := by
  induction vs generalizing n with
  | nil => rfl
  | cons t ts ih =>
    rw [List.forall_mem_cons] at hvs
    simp [operandValues, operandValue_isShardingValue hvs.1, ih hvs.2]

theorem achieves_record {left : Expression} {op : ConditionOperator} {vs : List Token}
    {es : List Expression} (hvs : ∀ t ∈ vs, t.isOperand = true) (hp : v.cursor.Passes ts more)
    (hes : es = operandValues w.draft.placeholders vs) (hv : Collects w (placeholderCount vs) [] v) :
    Achieves v (recordCondition rule left op es) fun _ v₁ =>
      Tested rule w left (some op) vs ts more v₁ := by
  subst hes
  apply (achieves_recordCondition (operandValues_isShardingValue hvs _)).mono
  rintro _ v₁ ⟨hc, h⟩
  refine ⟨by rw [hc]; exact hp, ?_⟩
  have htest : testCondition? rule v.draft left (some op) (operandValues w.draft.placeholders vs) =
      testCondition? rule w.draft left (some op) (operandValues w.draft.placeholders vs) := by
    unfold testCondition?
    rw [findColumn?_congr hv.tables]
  rw [htest] at h
  exact hv.trans h

theorem isOperand_of_operands {vs : List Token} (hvs : SpellsOperands vs us) :
    ∀ t ∈ vs, t.isOperand = true := by
  induction hvs with
  | single h => simpa using h.1
  | cons h _ _ ih => simpa using ⟨h.1, ih⟩

theorem not_mem_of_disjoint {xs ys : List TokenType} {x : TokenType} (hx : x ∈ xs)
    (h : ∀ y ∈ xs, y ∉ ys) : x ∉ ys := h x hx

theorem achieves_choosing {left : Expression} {op : ConditionOperator} {vs : List Token}
    (hs : SpellsTest (some op) vs us) (hw : w.cursor.Passes (us ++ ts) more)
    (hm : endsComparison (ts ++ more) = true) :
    Achieves w (comparisonOf rule left) fun _ v => Tested rule w left (some op) vs ts more v := by
  have hend : endsOperand (ts ++ more) = true := by
    simp only [endsComparison, Bool.and_eq_true] at hm
    exact hm.1
  unfold comparisonOf
  cases hs with
  | @equal e x he hx =>
    apply settles_tested hw (by simp [he])
    intro v hv
    apply (achieves_value hx hv hend).bind
    rintro e v₁ ⟨rfl, hv₁, h⟩
    have hall : ∀ t ∈ [x], t.isOperand = true := by simpa using hx
    exact achieves_record hall hv₁ rfl h
  | @oneOf i l r vs us hi hl hvs hr =>
    apply settles_noSkip hw (by simp [hi])
    apply settles_tested hw (by simp [hi])
    intro v hv
    apply (achieves_inValues hl hvs hr (by simpa using hv)).bind
    rintro es? v₁ ⟨rfl, hv₁, h⟩
    exact achieves_record (isOperand_of_operands hvs) hv₁ rfl h
  | @between b low a high hb hlow ha hhigh =>
    apply settles_noSkip hw (by simp [hb])
    apply settles_noSkip hw (by simp [hb])
    apply settles_tested hw (by simp [hb])
    intro v hv
    apply (achieves_betweenValues hlow ha hhigh hv hend).bind
    rintro es v₁ ⟨rfl, hv₁, h⟩
    exact achieves_record (by simpa using ⟨hlow, hhigh⟩) hv₁ rfl h

theorem achieves_null (hn : t.type = .keyword .NULL) (hw : w.cursor.Passes (t :: ts) more)
    (hm : endsOperand (ts ++ more) = true) :
    Achieves w expression fun _ v => v.cursor.Passes ts more ∧ Collects w 0 [] v := by
  apply (achieves_expression (achieves_operand hw (by simp [hn]) hm)).mono
  rintro e v ⟨-, hv, h⟩
  rw [placeholderCount_of_ne (by simp [hn])] at h
  exact ⟨hv, h⟩

theorem achieves_unrecorded {left : Expression} {vs : List Token} (hs : SpellsTest none vs us)
    (hw : w.cursor.Passes (us ++ ts) more) (hm : endsComparison (ts ++ more) = true) :
    Achieves w unrecordedComparison fun _ v => Tested rule w left none vs ts more v := by
  have hend : endsOperand (ts ++ more) = true := by
    simp only [endsComparison, Bool.and_eq_true] at hm
    exact hm.1
  unfold unrecordedComparison
  -- NOT, IS and LIKE are looked for before the operators, so that every form passes by those in
  -- front of its own.
  cases hs with
  | @ordered o x ho hx =>
    apply settles_noSkip hw (not_mem_of_disjoint ho (by decide))
    apply settles_noSkip hw (not_mem_of_disjoint ho (by decide))
    apply settles_noSkip hw (not_mem_of_disjoint ho (by decide))
    apply settles_tested hw ho
    intro v hv
    apply (achieves_value hx hv hend).bind
    rintro e v₁ ⟨-, hv₁, h⟩
    exact Settles.pure ⟨hv₁, h⟩
  | @like l x hl hx =>
    apply settles_noSkip hw (not_mem_of_disjoint hl (by decide))
    apply settles_noSkip hw (not_mem_of_disjoint hl (by decide))
    apply settles_tested hw hl
    intro v hv
    exact achieves_pattern hx hv hm
  | isNull hi hn =>
    apply settles_noSkip hw (by simp [hi])
    apply settles_tested hw (by simp [hi])
    intro v hv
    apply settles_noSkip hv (by simp [hn])
    apply (achieves_null hn hv hend).bind
    intro e v₁ h
    exact Settles.pure h
  | isNotNull hi ho hn =>
    apply settles_noSkip hw (by simp [hi])
    apply settles_tested hw (by simp [hi])
    intro v hv
    apply settles_tested hv (by simp [ho])
    intro v₁ hv₁
    apply (achieves_null hn hv₁ hend).bind
    intro e v₂ h
    exact Settles.pure h
  | notLike ho hl hx =>
    apply settles_tested hw (by simp [ho])
    intro v hv
    apply settles_noSkip hv (not_mem_of_disjoint hl (by decide))
    apply settles_noSkip hv (not_mem_of_disjoint hl (by decide))
    apply settles_tested hv hl
    intro v₁ hv₁
    exact achieves_pattern hx hv₁ hm
  | @notIn o i l r vs us ho hi hl hvs hr =>
    apply settles_tested hw (by simp [ho])
    intro v hv
    apply settles_tested hv (by simp [hi])
    intro v₁ hv₁
    apply (achieves_skippedValues hl hvs hr (by simpa using hv₁)).bind
    intro s v₂ h
    exact Settles.pure h
  | notBetween ho hb hlow ha hhigh =>
    apply settles_tested hw (by simp [ho])
    intro v hv
    apply settles_noSkip hv (by simp [hb])
    apply settles_tested hv (by simp [hb])
    intro v₁ hv₁
    apply (achieves_betweenValues hlow ha hhigh hv₁ hend).bind
    rintro es v₂ ⟨-, h⟩
    exact Settles.pure h

theorem SpellsTest.front_none {vs : List Token} (hs : SpellsTest none vs us) :
    frontType us ∉ [TokenType.symbol .equal] ∧ frontType us ∉ [TokenType.keyword .IN] ∧
      frontType us ∉ [TokenType.keyword .BETWEEN] := by
  cases hs with
  | ordered h | like h =>
    exact ⟨not_mem_of_disjoint h (by decide), not_mem_of_disjoint h (by decide),
      not_mem_of_disjoint h (by decide)⟩
  | isNull h | isNotNull h | notLike h | notIn h | notBetween h => simp [h]

def testFronts : List TokenType :=
  [.symbol .equal, .keyword .IN, .keyword .BETWEEN, .keyword .IS, .keyword .NOT] ++
    otherComparisons ++ patternWords

theorem SpellsTest.front {op? : Option ConditionOperator} {vs : List Token}
    (hs : SpellsTest op? vs us) (more : List Token) : frontType (us ++ more) ∈ testFronts := by
  unfold testFronts
  cases hs with
  | ordered h | like h => simp [h]
  | equal h | oneOf h | between h | isNull h | isNotNull h | notLike h | notIn h | notBetween h =>
    simp [h]

/-- A column ends in front of a test, and no parenthesis closes there. -/
theorem SpellsTest.ends {op? : Option ConditionOperator} {vs : List Token}
    (hs : SpellsTest op? vs us) (more : List Token) : endsOperand (us ++ more) = true ∧
      frontType (us ++ more) ≠ .symbol .rightParen := by
  have hends : ∀ x ∈ testFronts, x ∉ operators ∧ x ≠ .symbol .leftParen ∧ x ≠ .literal .int ∧
      x ≠ .literal .float ∧ x ≠ .symbol .rightParen := by decide
  obtain ⟨ho, hl, hi, hf, hr⟩ := hends _ (hs.front more)
  exact ⟨endsOperand_of_type rfl ho hl hi hf, hr⟩

theorem SpellsTest.ne_nil {op? : Option ConditionOperator} {vs : List Token}
    (hs : SpellsTest op? vs us) : us ≠ [] := by
  cases hs <;> simp

theorem achieves_comparisonOf {left : Expression} {op? : Option ConditionOperator}
    {vs : List Token} (hs : SpellsTest op? vs us) (hw : w.cursor.Passes (us ++ ts) more)
    (hm : endsComparison (ts ++ more) = true) :
    Achieves w (comparisonOf rule left) fun _ v => Tested rule w left op? vs ts more v := by
  cases op? with
  | some op => exact achieves_choosing hs hw hm
  | none =>
    have hfront : frontType (us ++ ts ++ more) = frontType us := by
      rw [List.append_assoc, frontType_append hs.ne_nil]
    obtain ⟨h₁, h₂, h₃⟩ := hs.front_none
    unfold comparisonOf
    apply settles_noSkip hw (hfront ▸ h₁)
    apply settles_noSkip hw (hfront ▸ h₂)
    apply settles_noSkip hw (hfront ▸ h₃)
    exact achieves_unrecorded hs hw hm

end SqlFront

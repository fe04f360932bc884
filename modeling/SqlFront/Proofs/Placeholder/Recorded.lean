import SqlFront.Clause.InsertRows
import SqlFront.Clause.RowLimit
import SqlFront.Proofs.Cursor.Path

/-!
# What is recorded of a text

A condition, a row and a part of a row limit stand at certain tokens of a text, and so does each of
their values. That a cursor stands behind so many placeholders is a parameter `P`; a placeholder that
is recorded has the number in front of its own token.
-/

set_option autoImplicit false

namespace SqlFront

open SqlFront.Clause

variable {α : Type} {P Q : Cursor → ℕ → Prop} {c c₁ c₂ c' : Cursor}

/-! ## Lists -/

section

variable {At Bt : Cursor → Cursor → α → Prop} {separator : Option TokenType} {x : α} {xs ys : List α}

inductive SeparatedAt (At : Cursor → Cursor → α → Prop) (separator : Option TokenType) :
    Cursor → Cursor → List α → Prop
  | last {c c' : Cursor} {x : α} : At c c' x → SeparatedAt At separator c c' [x]
  | next {c c₁ c₂ c' : Cursor} {x : α} {xs : List α} : At c c₁ x →
      separator = some c₁.current.type → c₁.advance = .ok c₂ →
      SeparatedAt At separator c₂ c' xs → SeparatedAt At separator c c' (x :: xs)

namespace SeparatedAt

theorem mono (hAt : ∀ c c' x, At c c' x → Bt c c' x) (h : SeparatedAt At separator c c' xs) :
    SeparatedAt Bt separator c c' xs := by
  induction h with
  | last hx => exact .last (hAt _ _ _ hx)
  | next hx hs hc _ ih => exact .next (hAt _ _ _ hx) hs hc ih

theorem reaches (hAt : ∀ c c' x, At c c' x → c.Reaches c') (h : SeparatedAt At separator c c' xs) :
    c.Reaches c' := by
  induction h with
  | last hx => exact hAt _ _ _ hx
  | next hx _ hc _ ih => exact (hAt _ _ _ hx).trans ((Cursor.Reaches.single hc).trans ih)

end SeparatedAt

inductive OrderedAt (At : Cursor → Cursor → α → Prop) : Cursor → Cursor → List α → Prop
  | nil {c c' : Cursor} : c.Reaches c' → OrderedAt At c c' []
  | cons {c c₁ c₂ c' : Cursor} {x : α} {xs : List α} : c.Reaches c₁ → At c₁ c₂ x →
      OrderedAt At c₂ c' xs → OrderedAt At c c' (x :: xs)

namespace OrderedAt

theorem single (h : c.Reaches c₁) (hx : At c₁ c₂ x) (h' : c₂.Reaches c') : OrderedAt At c c' [x] :=
  .cons h hx (.nil h')

theorem behind (h : c.Reaches c₁) (hx : OrderedAt At c₁ c' xs) : OrderedAt At c c' xs := by
  cases hx with
  | nil hr => exact .nil (h.trans hr)
  | cons hr hx hxs => exact .cons (h.trans hr) hx hxs

theorem append (hx : OrderedAt At c c₁ xs) (hy : OrderedAt At c₁ c' ys) :
    OrderedAt At c c' (xs ++ ys) := by
  induction hx with
  | nil h => exact hy.behind h
  | cons h hx _ ih => exact .cons h hx (ih hy)

theorem mono (hAt : ∀ c c' x, At c c' x → Bt c c' x) (h : OrderedAt At c c' xs) :
    OrderedAt Bt c c' xs := by
  induction h with
  | nil h => exact .nil h
  | cons h hx _ ih => exact .cons h (hAt _ _ _ hx) ih

theorem exists_of_mem (hAt : ∀ c c' x, At c c' x → c.Reaches c') (h : OrderedAt At c c' xs)
    (hx : x ∈ xs) : ∃ c₁ c₂, c.Reaches c₁ ∧ At c₁ c₂ x := by
  induction h with
  | nil => cases hx
  | @cons c c₁ c₂ c' y ys hr hy _ ih =>
    rcases List.mem_cons.1 hx with rfl | hx
    · exact ⟨c₁, c₂, hr, hy⟩
    · obtain ⟨c₃, c₄, hr', hx⟩ := ih hx
      exact ⟨c₃, c₄, (hr.trans (hAt _ _ _ hy)).trans hr', hx⟩

end OrderedAt

end

/-! ## Expressions -/

/-- A placeholder, a literal and a member of an owner by their tokens, and what is composed by its
text. -/
inductive ExpressionAt (P : Cursor → ℕ → Prop) (c c' : Cursor) : Expression → Prop
  | placeholder {n : ℕ} : c.isAt (.symbol .question) = true → P c n → c.advance = .ok c' →
      ExpressionAt P c c' (.placeholder n)
  | literal : c.isAt (.symbol .question) = false → c.advance = .ok c' →
      ExpressionAt P c c' (literal c.current)
  | member {c₁ c₂ : Cursor} : c.advance = .ok c₁ → c₁.isAt (.symbol .dot) = true →
      c₁.advance = .ok c₂ → c₂.advance = .ok c' →
      ExpressionAt P c c' (.property c.current.literals c₂.current.literals)
  | composite : c.Reaches c' →
      ExpressionAt P c c' (.raw (trimmed (c'.slice c.current.start c'.previousStop)))

theorem ExpressionAt.mono {e : Expression} (hPQ : ∀ c n, P c n → Q c n)
    (h : ExpressionAt P c c' e) : ExpressionAt Q c c' e := by
  cases h with
  | placeholder hq hn hc => exact .placeholder hq (hPQ _ _ hn) hc
  | literal hq hc => exact .literal hq hc
  | member hc hdot hc₁ hc₂ => exact .member hc hdot hc₁ hc₂
  | composite h => exact .composite h

theorem ExpressionAt.reaches {e : Expression} (h : ExpressionAt P c c' e) : c.Reaches c' := by
  cases h with
  | placeholder _ _ hc | literal _ hc => exact .single hc
  | member hc _ hc₁ hc₂ => exact (Cursor.Reaches.single hc).trans (.trans (.single hc₁) (.single hc₂))
  | composite h => exact h

/-! ## Conditions -/

namespace ConditionOperator

def opening : ConditionOperator → List TokenType
  | .equal => [.symbol .equal]
  | .oneOf => [.keyword .IN, .symbol .leftParen]
  | .between => [.keyword .BETWEEN]

def separator : ConditionOperator → Option TokenType
  | .equal => none
  | .oneOf => some (.symbol .comma)
  | .between => some (.keyword .AND)

end ConditionOperator

inductive ComparisonAt (P : Cursor → ℕ → Prop) (c c' : Cursor) (x : Condition) : Prop
  | mk {c₁ c₂ : Cursor} {left : Expression} {closing opening : List Token} :
      ExpressionAt P c c₁ left → left.columnName? = some x.column.name →
      (∀ t ∈ closing, t.type = .symbol .rightParen) →
      opening.map Token.type = x.operator.opening → c₁.Walk (closing ++ opening) c₂ →
      SeparatedAt (ExpressionAt P) x.operator.separator c₂ c' x.values → ComparisonAt P c c' x

theorem ComparisonAt.mono {x : Condition} (hPQ : ∀ c n, P c n → Q c n)
    (h : ComparisonAt P c c' x) : ComparisonAt Q c c' x := by
  obtain ⟨hleft, hname, hclosing, hopening, hwalk, hvalues⟩ := h
  exact ⟨hleft.mono hPQ, hname, hclosing, hopening, hwalk, hvalues.mono fun _ _ _ h => h.mono hPQ⟩

theorem ComparisonAt.reaches {x : Condition} (h : ComparisonAt P c c' x) : c.Reaches c' := by
  obtain ⟨hleft, -, -, -, hwalk, hvalues⟩ := h
  exact hleft.reaches.trans (hwalk.reaches.trans (hvalues.reaches fun _ _ _ h => h.reaches))

/-! ## Rows -/

inductive AssignmentAt (P : Cursor → ℕ → Prop) (c c' : Cursor) : Column × Expression → Prop
  | mk {c₁ c₂ : Cursor} {column : Column} {left value : Expression} : ExpressionAt P c c₁ left →
      left.columnName? = some column.name →
      c₁.isAtAny [.symbol .equal, .symbol .colonEqual] = true → c₁.advance = .ok c₂ →
      ExpressionAt P c₂ c' value → AssignmentAt P c c' (column, value)

theorem AssignmentAt.mono {a : Column × Expression} (hPQ : ∀ c n, P c n → Q c n)
    (h : AssignmentAt P c c' a) : AssignmentAt Q c c' a := by
  obtain ⟨hleft, hname, hsign, hc, hvalue⟩ := h
  exact ⟨hleft.mono hPQ, hname, hsign, hc, hvalue.mono hPQ⟩

structure InsertedRow where
  table : String
  values : List (Column × Expression)

namespace InsertedRow

variable {rule : ShardingRule} {row : InsertedRow}

def group (rule : ShardingRule) (row : InsertedRow) : ConditionGroup :=
  ⟨row.values.filterMap fun v => valueCondition? rule v.1 v.2⟩

def keys (rule : ShardingRule) (row : InsertedRow) : List GeneratedKey :=
  (row.values.filter fun v =>
    ShardingRule.isGeneratedKey (rule.generatedKey? row.table) v.1.name).map fun v => ⟨v.1, v.2⟩

inductive At (P : Cursor → ℕ → Prop) (c c' : Cursor) : InsertedRow → Prop
  | values {c₁ : Cursor} {table : String} {columns : List Column} {values : List Expression} :
      c.isAt (.symbol .leftParen) = true → c.advance = .ok c₁ →
      SeparatedAt (ExpressionAt P) (some (.symbol .comma)) c₁ c' values →
      c'.isAt (.symbol .rightParen) = true → At P c c' ⟨table, columns.zip values⟩
  | set {table : String} {values : List (Column × Expression)} :
      SeparatedAt (AssignmentAt P) (some (.symbol .comma)) c c' values → At P c c' ⟨table, values⟩

theorem At.mono (hPQ : ∀ c n, P c n → Q c n) (h : row.At P c c') : row.At Q c c' := by
  cases h with
  | values hat hc hvalues hclose =>
    exact .values hat hc (hvalues.mono fun _ _ _ h => h.mono hPQ) hclose
  | set h => exact .set (h.mono fun _ _ _ h => h.mono hPQ)

end InsertedRow

/-! ## Row limits -/

namespace Clause.LimitPart

inductive Place : LimitPart → Cursor → Prop
  | count {c₀ c : Cursor} : c₀.isAt (.keyword .LIMIT) = true → c₀.advance = .ok c →
      (c.dialect.grammar.rowLimit = .limit true →
        ∀ t, c.peek = .ok t → t.type ≠ .symbol .comma) → Place .rowCount c
  | offset {c₀ c : Cursor} : c₀.isAt (.keyword .OFFSET) = true → c₀.advance = .ok c →
      Place .offset c
  | countBehind {c₀ c₁ c₂ c : Cursor} : c₀.isAt (.keyword .OFFSET) = true →
      c₀.advance = .ok c₁ → c₁.advance = .ok c₂ → c₂.isAt (.keyword .LIMIT) = true →
      c₂.advance = .ok c → Place .rowCount c
  | offsetBefore {c₀ c c₁ : Cursor} : c₀.isAt (.keyword .LIMIT) = true → c₀.advance = .ok c →
      c.advance = .ok c₁ → c₁.isAt (.symbol .comma) = true → Place .offset c
  | countAfter {c₀ c₁ c₂ c : Cursor} : c₀.isAt (.keyword .LIMIT) = true →
      c₀.advance = .ok c₁ → c₁.advance = .ok c₂ → c₂.isAt (.symbol .comma) = true →
      c₂.advance = .ok c → Place .rowCount c
  | top {c₀ c : Cursor} : c₀.isAt (.keyword .TOP) = true → c₀.advance = .ok c →
      c.isAt (.symbol .leftParen) = false → Place .rowCount c
  | topInside {c₀ c₁ c : Cursor} : c₀.isAt (.keyword .TOP) = true → c₀.advance = .ok c₁ →
      c₁.isAt (.symbol .leftParen) = true → c₁.advance = .ok c → Place .rowCount c

def At (P : Cursor → ℕ → Prop) (part : LimitPart) (value? : Option LimitValue) : Prop :=
  ∀ n, value?.bind LimitValue.index? = some n →
    ∃ c, part.Place c ∧ c.isAt (.symbol .question) = true ∧ P c n

theorem At.mono {part : LimitPart} {value? : Option LimitValue} (hPQ : ∀ c n, P c n → Q c n)
    (h : part.At P value?) : part.At Q value? := by
  intro n hn
  obtain ⟨c, hplace, hq, hc⟩ := h n hn
  exact ⟨c, hplace, hq, hPQ c n hc⟩

theorem at_none {part : LimitPart} : part.At P none := fun _ h => by cases h

theorem At.or {part : LimitPart} {a b : Option LimitValue} (ha : part.At P a) (hb : part.At P b) :
    part.At P (a.or b) := by
  cases a with
  | none => exact hb
  | some v => exact ha

end Clause.LimitPart

structure RowLimit.At (P : Cursor → ℕ → Prop) (l : RowLimit) : Prop where
  offset : LimitPart.offset.At P l.offset?
  rowCount : LimitPart.rowCount.At P l.rowCount?

theorem RowLimit.At.mono {l : RowLimit} (hPQ : ∀ c n, P c n → Q c n) (h : l.At P) : l.At Q :=
  ⟨h.offset.mono hPQ, h.rowCount.mono hPQ⟩

theorem RowLimit.At.orElse {l m : RowLimit} (hl : l.At P) (hm : m.At P) : (l.orElse m).At P :=
  ⟨hl.offset.or hm.offset, hl.rowCount.or hm.rowCount⟩

end SqlFront

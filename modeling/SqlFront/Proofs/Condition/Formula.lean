import Mathlib.Data.List.Basic
import SqlFront.Clause.Expression
import SqlFront.Statement.Condition

/-!
# Formulas

A formula joins comparisons of a column with constants by AND and OR. Its rows are compared with
the conditions that reading it leaves behind. How far the reading goes is told by the formula
alone: parentheses close behind the comparison that they were opened for, so the reading stops at
a parenthesis that closes more than one comparison, and it refuses the first OR that it meets.
-/

set_option autoImplicit false

namespace SqlFront

open SqlFront.Clause

/-! ## Rows -/

structure Values (V : Type) where
  of : Expression → V
  le : V → V → Prop

abbrev Row (V : Type) := String → V

variable {V : Type} {I : Values V} {row : Row V}

def ConditionOperator.Accepts (I : Values V) (v : V) : ConditionOperator → List V → Prop
  | .equal, [x] => v = x
  | .oneOf, xs => v ∈ xs
  | .between, [low, high] => I.le low v ∧ I.le v high
  | _, _ => False

def Condition.Holds (I : Values V) (row : Row V) (c : Condition) : Prop :=
  c.operator.Accepts I (row c.column.name) (c.values.map I.of)

/-! ## Comparisons -/

namespace Token

def isName (t : Token) : Bool :=
  match t.type with
  | .literal .identifier => true
  | .literal .chars => true
  | .keyword k => k != .SELECT
  | _ => false

def isConstant (t : Token) : Bool :=
  match t.type with
  | .literal .int => true
  | .literal .float => true
  | .literal .hex => true
  | .literal .chars => true
  | .keyword k => [Keyword.NULL, .TRUE, .FALSE].contains k
  | _ => false

end Token

structure Comparison where
  owner? : Option Token
  name : Token
  operator : ConditionOperator
  constants : List Token

namespace Comparison

def Holds (I : Values V) (row : Row V) (c : Comparison) : Prop :=
  c.operator.Accepts I (row (unquoted c.name.literals)) (c.constants.map fun t => I.of (literal t))

def condition (c : Comparison) (table : String) : Condition :=
  ⟨⟨unquoted c.name.literals, table⟩, c.operator, c.constants.map literal⟩

theorem condition_holds {c : Comparison} {table : String} :
    (c.condition table).Holds I row ↔ c.Holds I row := by
  unfold Condition.Holds Holds
  rw [condition, List.map_map]
  rfl

inductive SpellsColumn : Option Token → Token → List Token → Prop
  | alone {n : Token} : n.isName = true → SpellsColumn none n [n]
  | owned {o d n : Token} : o.isName = true → d.type = .symbol .dot → n.isName = true →
      SpellsColumn (some o) n [o, d, n]

inductive SpellsConstants : List Token → List Token → Prop
  | single {v : Token} : v.isConstant = true → SpellsConstants [v] [v]
  | cons {v comma : Token} {vs ts : List Token} : v.isConstant = true →
      comma.type = .symbol .comma → SpellsConstants vs ts →
      SpellsConstants (v :: vs) (v :: comma :: ts)

inductive SpellsRelation : ConditionOperator → List Token → List Token → Prop
  | equal {e v : Token} : e.type = .symbol .equal → v.isConstant = true →
      SpellsRelation .equal [v] [e, v]
  | oneOf {i l r : Token} {vs ts : List Token} : i.type = .keyword .IN →
      l.type = .symbol .leftParen → r.type = .symbol .rightParen → SpellsConstants vs ts →
      SpellsRelation .oneOf vs (i :: l :: ts ++ [r])
  | between {b low a high : Token} : b.type = .keyword .BETWEEN → low.isConstant = true →
      a.type = .keyword .AND → high.isConstant = true →
      SpellsRelation .between [low, high] [b, low, a, high]

def Spells (c : Comparison) (ts : List Token) : Prop :=
  ∃ us vs, SpellsColumn c.owner? c.name us ∧ SpellsRelation c.operator c.constants vs ∧
    ts = us ++ vs

end Comparison

/-! ## Formulas -/

inductive Formula
  | comparison (c : Comparison)
  | group (b : Formula)
  | and (l r : Formula)
  | or (l r : Formula)

inductive Outcome
  | closing (n : ℕ)
  | stopped
  | refused
deriving DecidableEq

def Outcome.isClosing : Outcome → Bool
  | .closing _ => true
  | _ => false

namespace Formula

def isOr : Formula → Bool
  | .or _ _ => true
  | _ => false

inductive Spells : Formula → List Token → Prop
  | comparison {c : Comparison} {ts : List Token} : c.Spells ts → Spells (.comparison c) ts
  | group {b : Formula} {x y : Token} {ts : List Token} : x.type = .symbol .leftParen →
      y.type = .symbol .rightParen → Spells b ts → Spells (.group b) (x :: ts ++ [y])
  | and {l r : Formula} {x : Token} {ts us : List Token} : l.isOr = false → r.isOr = false →
      x.type = .keyword .AND → Spells l ts → Spells r us → Spells (.and l r) (ts ++ x :: us)
  | or {l r : Formula} {x : Token} {ts us : List Token} : x.type = .keyword .OR → Spells l ts →
      Spells r us → Spells (.or l r) (ts ++ x :: us)

def Holds (I : Values V) (row : Row V) : Formula → Prop
  | .comparison c => c.Holds I row
  | .group b => b.Holds I row
  | .and l r => l.Holds I row ∧ r.Holds I row
  | .or l r => l.Holds I row ∨ r.Holds I row

def outcome : ℕ → Formula → Outcome
  | n, .comparison _ => .closing n
  | n, .group b =>
    match outcome (n + 1) b with
    | .closing (m + 1) => .closing m
    | .closing 0 => .stopped
    | o => o
  | n, .and l r => if (outcome n l).isClosing then outcome 0 r else outcome n l
  | n, .or l _ => if (outcome n l).isClosing then .refused else outcome n l

def comparisonsRead : ℕ → Formula → List Comparison
  | _, .comparison c => [c]
  | n, .group b => comparisonsRead (n + 1) b
  | n, .and l r =>
    comparisonsRead n l ++ if (outcome n l).isClosing then comparisonsRead 0 r else []
  | n, .or l _ => comparisonsRead n l

def Missed (I : Values V) (row : Row V) : ℕ → Formula → Prop
  | _, .comparison _ => False
  | n, .group b => Missed I row (n + 1) b
  | n, .and l r =>
    if (outcome n l).isClosing then l.Holds I row ∧ Missed I row 0 r
    else Missed I row n l ∧ r.Holds I row
  | n, .or l r => Missed I row n l ∨ r.Holds I row

def hidesOr : ℕ → Formula → Bool
  | _, .comparison _ => false
  | n, .group b => hidesOr (n + 1) b
  | n, .and l r => if (outcome n l).isClosing then hidesOr 0 r else hidesOr n l
  | n, .or l _ => outcome n l == .stopped

theorem Missed.holds {n : ℕ} {b : Formula} (h : b.Missed I row n) : b.Holds I row := by
  induction b generalizing n with
  | comparison c => exact h.elim
  | group b ih => exact ih h
  | and l r ihl ihr =>
    unfold Missed at h
    split at h
    · exact ⟨h.1, ihr h.2⟩
    · exact ⟨ihl h.1, h.2⟩
  | or l r ihl _ =>
    rcases h with h | h
    · exact Or.inl (ihl h)
    · exact Or.inr h

theorem not_missed_of_closing {n : ℕ} {b : Formula} (h : (b.outcome n).isClosing = true) :
    ¬b.Missed I row n := by
  induction b generalizing n with
  | comparison c => exact id
  | group b ih =>
    refine ih ?_
    unfold outcome at h
    cases ho : b.outcome (n + 1) with
    | closing m => rfl
    | stopped => simp [ho, Outcome.isClosing] at h
    | refused => simp [ho, Outcome.isClosing] at h
  | and l r ihl ihr =>
    unfold outcome at h
    split at h
    · next hl =>
      rw [Missed, if_pos hl]
      exact fun hm => ihr h hm.2
    · next hl => exact (hl h).elim
  | or l r _ _ =>
    unfold outcome at h
    split at h
    · cases h
    · next hl => exact (hl h).elim

/-- A formula is missed only where an OR is hidden, unless its reading ends at an OR. -/
theorem Missed.hidesOr {n : ℕ} {b : Formula} (h : b.Missed I row n)
    (hr : b.outcome n ≠ .refused) : b.hidesOr n = true := by
  induction b generalizing n with
  | comparison c => exact h.elim
  | group b ih =>
    refine ih h fun hb => hr ?_
    rw [outcome, hb]
  | and l r ihl ihr =>
    unfold Missed at h
    split at h
    · next hl =>
      rw [Formula.hidesOr, if_pos hl]
      exact ihr h.2 fun ho => hr (by rw [outcome, if_pos hl, ho])
    · next hl =>
      rw [Formula.hidesOr, if_neg hl]
      exact ihl h.1 fun ho => hr (by rw [outcome, if_neg hl, ho])
  | or l r ihl _ =>
    have hl : (l.outcome n).isClosing = false := by
      by_contra hl
      exact hr (by rw [outcome, if_pos (by simpa using hl)])
    rw [outcome, if_neg (by simp [hl])] at hr
    cases ho : l.outcome n with
    | closing m => simp [ho, Outcome.isClosing] at hl
    | stopped => simp [Formula.hidesOr, ho]
    | refused => exact (hr ho).elim

/-- A row that satisfies the formula satisfies all that has been read, or it is missed. -/
theorem Holds.read_or_missed {b : Formula} (n : ℕ) (h : b.Holds I row) :
    (∀ c ∈ b.comparisonsRead n, c.Holds I row) ∨ b.Missed I row n := by
  induction b generalizing n with
  | comparison c =>
    refine Or.inl fun x hx => ?_
    obtain rfl := List.mem_singleton.1 hx
    exact h
  | group b ih => exact ih (n + 1) h
  | and l r ihl ihr =>
    obtain ⟨hl, hr⟩ := h
    by_cases hc : (l.outcome n).isClosing = true
    · simp only [comparisonsRead, Missed, hc, if_true, List.mem_append]
      rcases ihr 0 hr with hr | hr
      · rcases ihl n hl with hl' | hl'
        · exact Or.inl fun c hm => hm.elim (hl' c) (hr c)
        · exact (not_missed_of_closing hc hl').elim
      · exact Or.inr ⟨hl, hr⟩
    · simp only [comparisonsRead, Missed, hc]
      rcases ihl n hl with hl' | hl'
      · refine Or.inl fun c hm => ?_
        simpa using hl' c (by simpa using hm)
      · exact Or.inr (by simpa using ⟨hl', hr⟩)
  | or l r ihl _ =>
    rcases h with h | h
    · rcases ihl n h with h | h
      · exact Or.inl h
      · exact Or.inr (Or.inl h)
    · exact Or.inr (Or.inr h)

end Formula

end SqlFront

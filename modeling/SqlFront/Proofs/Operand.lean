import SqlFront.Proofs.Cursor.Facing
import SqlFront.Proofs.Progress.Expression

/-!
# Reading operands

A word by itself and a member of an owner are read as what they are where nothing behind them goes
on with the operand. Parentheses and `CASE` are passed as a whole where what is inside is balanced.
-/

set_option autoImplicit false

namespace SqlFront

open SqlFront.Parser SqlFront.Clause

variable {w w' : Workspace Findings} {t : Token} {ts more : List Token} {e : Expression}

/-! ## Words -/

def endsOperand (ts : List Token) : Bool :=
  !(TokenType.symbol .leftParen :: operators).contains (frontType ts) &&
    !ts.head?.any isNegativeNumber

theorem endsOperand_of_type {x : TokenType} (ht : frontType ts = x) (hx : x ∉ operators)
    (hp : x ≠ .symbol .leftParen) (hi : x ≠ .literal .int) (hf : x ≠ .literal .float) :
    endsOperand ts = true := by
  subst ht
  cases ts with
  | nil => rfl
  | cons t ts =>
    simp only [frontType_cons] at hx hp hi hf
    simp [endsOperand, isNegativeNumber, hx, hp, hi, hf]

theorem endsOperand_comma (ht : frontType ts = .symbol .comma) : endsOperand ts = true :=
  endsOperand_of_type ht (by decide) (by simp) (by simp) (by simp)

theorem endsOperand_rightParen (ht : frontType ts = .symbol .rightParen) :
    endsOperand ts = true :=
  endsOperand_of_type ht (by decide) (by simp) (by simp) (by simp)

theorem endsOperand_equal (ht : frontType ts = .symbol .equal) : endsOperand ts = true :=
  endsOperand_of_type ht (by decide) (by simp) (by simp) (by simp)

theorem endsOperand_keyword {k : Keyword} (ht : frontType ts = .keyword k) :
    endsOperand ts = true :=
  endsOperand_of_type ht (by simp [operators]) (by simp) (by simp) (by simp)

theorem not_operator (hm : endsOperand more = true) : frontType more ∉ operators := by
  intro ho
  simp [endsOperand, ho] at hm

theorem not_leftParen (hm : endsOperand more = true) : frontType more ≠ .symbol .leftParen := by
  intro hp
  simp [endsOperand, hp] at hm

theorem not_negative (hw : w.cursor.Faces more) (hm : endsOperand more = true) :
    isNegativeNumber w.cursor.current = false := by
  cases more with
  | nil => simp [isNegativeNumber, hw.type]
  | cons t more =>
    rw [hw.current]
    simp only [endsOperand, Bool.and_eq_true, List.head?_cons, Option.any_some] at hm
    simpa using hm.2

theorem skipContinuation_end {α : Type} {a : α} {f : Bool → Parser Findings α}
    (hw : w.cursor.Faces more) (hm : endsOperand more = true)
    (h : (skipContinuation >>= f) w = .ok a w') : f false w = .ok a w' := by
  obtain ⟨b, v, hb, hf⟩ := bind_ok.1 h
  obtain ⟨_, _, ht, hn⟩ := bind_ok.1 (isAtAny_other hw (not_operator hm) hb)
  obtain ⟨rfl, rfl⟩ := current_ok.1 ht
  rw [not_negative hw hm] at hn
  obtain ⟨rfl, rfl⟩ := pure_ok.1 hn
  exact hf

theorem primary_word {α : Type} {a : α} {f : Expression → Parser Findings α}
    (hw : w.cursor.Faces (t :: ts)) (hq : t.type ≠ .symbol .question)
    (h : (primary >>= f) w = .ok a w') : f (literal t) w = .ok a w' := by
  obtain ⟨e, v, he, hf⟩ := bind_ok.1 h
  replace he := isAt_other hw hq he
  replace he := current_front hw he
  obtain ⟨rfl, rfl⟩ := pure_ok.1 he
  exact hf

def Token.isWord (t : Token) : Bool :=
  t.type != .symbol .question && t.type != .symbol .leftParen

theorem operandChain_word (hw : w.cursor.Faces (t :: ts)) (ht : t.isWord = true)
    (h : operandChain w = .ok e w') : ∃ v, v.cursor.Faces ts ∧ (do
      if ← skipSymbol .dot then
        let name := (← current).literals
        advance
        if ← skipContinuation then rawFrom t.start else return .property t.literals name
      else if ← isAt (.symbol .leftParen) then
        let _ ← skipParentheses
        skipOperations
        rawFrom t.start
      else if ← skipContinuation then rawFrom t.start
      else return literal t : Parser Findings Expression) v = .ok e w' := by
  simp only [Token.isWord, Bool.and_eq_true, bne_iff_ne] at ht
  replace h := primary_word hw ht.1 (isAt_other hw ht.2 (current_front hw h))
  obtain ⟨_, v, ha, h⟩ := bind_ok.1 h
  exact ⟨v, (advance_front hw ha).1, h⟩

theorem operandChain_alone (hw : w.cursor.Faces (t :: more)) (ht : t.isWord = true)
    (hm : endsOperand more = true) (h : operandChain w = .ok e w') :
    e = literal t ∧ w'.cursor.Faces more := by
  obtain ⟨v, hv, h⟩ := operandChain_word hw ht h
  have hdot : frontType more ∉ [TokenType.symbol .dot] := fun hd => not_operator hm (by
    obtain hd := List.mem_singleton.1 hd
    simp [hd, operators])
  replace h := isAt_other hv (not_leftParen hm) (skipIf_other hv hdot h)
  replace h := skipContinuation_end hv hm h
  obtain ⟨rfl, rfl⟩ := pure_ok.1 h
  exact ⟨rfl, hv⟩

theorem operandChain_member {d n : Token} (hw : w.cursor.Faces (t :: d :: n :: more))
    (ht : t.isWord = true) (hd : d.type = .symbol .dot) (hm : endsOperand more = true)
    (h : operandChain w = .ok e w') :
    e = .property t.literals n.literals ∧ w'.cursor.Faces more := by
  obtain ⟨v, hv, h⟩ := operandChain_word hw ht h
  obtain ⟨b, v₁, hb, h⟩ := bind_ok.1 h
  obtain ⟨rfl, hv₁, -⟩ := skipIf_front hv (by simp [hd]) hb
  obtain ⟨_, v₂, ha, h⟩ := bind_ok.1 (current_front hv₁ h)
  obtain ⟨hv₂, -⟩ := advance_front hv₁ ha
  replace h := skipContinuation_end hv₂ hm h
  obtain ⟨rfl, rfl⟩ := pure_ok.1 h
  exact ⟨rfl, hv₂⟩

theorem expression_operands (h : expression w = .ok e w') : ∃ v, operandChain w = .ok e v ∧
    w'.cursor = v.cursor ∧ w'.draft.conditions = w.draft.conditions := by
  have hp : Progress (fun _ => False) False False w w' := follows_expression h
  obtain ⟨v, hv, hw⟩ := expression_ok h
  refine ⟨v, hv, ?_, hp.conditions_eq⟩
  rcases hw with rfl | ⟨-, rfl⟩ <;> rfl

end SqlFront

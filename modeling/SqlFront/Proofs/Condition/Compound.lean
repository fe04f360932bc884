import SqlFront.Proofs.Condition.Exactness
import SqlFront.Proofs.Insertion.Value

/-!
# Compound values

A value that joins operands by operators chooses no shard. The reader of expressions knows all of
the operators but the shifts: in front of a shift it takes the operand that it has read for the
whole value.
-/

set_option autoImplicit false

namespace SqlFront

open SqlFront.Parser SqlFront.Clause

/-! ## Values -/

def shifts : List TokenType := [.symbol .shiftLeft, .symbol .shiftRight]

def valueOperators : List TokenType :=
  [.symbol .plus, .symbol .minus, .symbol .star, .symbol .slash, .symbol .percent,
    .symbol .ampersand, .symbol .bar, .symbol .caret, .symbol .doubleBar] ++ shifts

inductive SpellsPart : List Token → Prop
  | literal {t : Token} {k : Literal} : t.type = .literal k → SpellsPart [t]
  | placeholder {t : Token} : t.type = .symbol .question → SpellsPart [t]
  | column {o? : Option Token} {n : Token} {us : List Token} : Comparison.SpellsColumn o? n us →
      SpellsPart us

inductive SpellsOperations : List Token → Prop
  | nil : SpellsOperations []
  | operator {o : Token} {us ts : List Token} : o.type ∈ valueOperators → SpellsPart us →
      SpellsOperations ts → SpellsOperations (o :: (us ++ ts))
  | negative {n : Token} {ts : List Token} : isNegativeNumber n = true → SpellsOperations ts →
      SpellsOperations (n :: ts)

inductive SpellsValue : List Token → Prop
  | intro {us ts : List Token} : SpellsPart us → SpellsOperations ts → SpellsValue (us ++ ts)

inductive SpellsCompound : List Token → Prop
  | intro {us ts : List Token} : SpellsPart us → SpellsOperations ts → ts ≠ [] →
      SpellsCompound (us ++ ts)

inductive SpellsValueTest : ConditionOperator → List (List Token) → List Token → Prop
  | equal {e : Token} {v : List Token} : e.type = .symbol .equal → SpellsValue v →
      SpellsValueTest .equal [v] (e :: v)
  | between {b a : Token} {low high : List Token} : b.type = .keyword .BETWEEN →
      SpellsValue low → a.type = .keyword .AND → SpellsValue high →
      SpellsValueTest .between [low, high] (b :: (low ++ a :: high))

def Shifted (v : List Token) : Prop :=
  ∃ t s us, v = t :: s :: us ∧ t.isOperand = true ∧ s.type ∈ shifts

def EndInShift : List (List Token) → Prop
  | [] => False
  | [v] => Shifted v
  | v :: vs => (∃ t, v = [t] ∧ t.isOperand = true) ∧ EndInShift vs

variable {rule : ShardingRule} {w v : Workspace Findings} {t s : Token} {us ts more : List Token}
  {e : Expression}

theorem SpellsValue.compound_or_part (h : SpellsValue us) : SpellsCompound us ∨ SpellsPart us := by
  obtain ⟨hpart, hoperations⟩ := h
  cases hoperations with
  | nil => exact Or.inr (by simpa using hpart)
  | operator ho hus hts => exact Or.inl (.intro hpart (.operator ho hus hts) (by simp))
  | negative hn hts => exact Or.inl (.intro hpart (.negative hn hts) (by simp))

/-- Behind its first token a compound value goes on. -/
theorem SpellsCompound.front (h : SpellsCompound us) : ∃ t s ts, us = t :: s :: ts ∧
    t.type ≠ .symbol .leftParen ∧
    (s.type ∈ shifts ∨ s.type ∈ operators ∨ isNegativeNumber s = true) := by
  have hoperations : ∀ {ts : List Token}, SpellsOperations ts → ts ≠ [] → ∃ s vs, ts = s :: vs ∧
      (s.type ∈ shifts ∨ s.type ∈ operators ∨ isNegativeNumber s = true) := by
    intro ts hts hne
    have hknown : ∀ x ∈ valueOperators, x ∈ shifts ∨ x ∈ operators := by decide
    cases hts with
    | nil => exact (hne rfl).elim
    | operator ho => exact ⟨_, _, rfl, (hknown _ ho).imp_right Or.inl⟩
    | negative hn => exact ⟨_, _, rfl, Or.inr (Or.inr hn)⟩
  obtain ⟨hpart, hts, hne⟩ := h
  obtain ⟨s, vs, rfl, hs⟩ := hoperations hts hne
  cases hpart with
  | literal ht | placeholder ht => exact ⟨_, s, vs, rfl, by simp [ht], hs⟩
  | column hc =>
    cases hc with
    | alone hn => exact ⟨_, s, vs, rfl, Token.not_leftParen_of_isName hn, hs⟩
    | owned ho hd => exact ⟨_, _, _, rfl, Token.not_leftParen_of_isName ho,
        Or.inr (Or.inl (by simp [hd, operators]))⟩

theorem SpellsCompound.length (h : SpellsCompound us) : 1 < us.length := by
  obtain ⟨t, s, ts, rfl, -⟩ := h.front
  simp

theorem endsOperand_shift (hs : s.type ∈ shifts) : endsOperand (s :: ts) = true := by
  have hplain : ∀ x ∈ shifts, x ∉ operators ∧ x ≠ .symbol .leftParen ∧ x ≠ .literal .int ∧
      x ≠ .literal .float := by decide
  obtain ⟨ho, hl, hi, hf⟩ := hplain _ hs
  exact endsOperand_of_type rfl ho hl hi hf

/-! ## What is read of a value -/

theorem operandValue_iff (n : ℕ) : (operandValue n t).isShardingValue = t.isOperand := by
  unfold operandValue Token.isOperand
  split
  · next hq => simp [hq, Expression.isShardingValue]
  · next hq => simp [hq]

theorem skipContinuation_true {b : Bool} (ho : w.cursor.current.type ∈ operators ∨
    isNegativeNumber w.cursor.current = true) (hr : skipContinuation w = .ok b v) : b = true := by
  obtain ⟨b', x, hb, h⟩ := bind_ok.1 hr
  obtain ⟨hat, rfl⟩ := isAtAny_ok.1 hb
  cases b' with
  | true =>
    obtain ⟨_, _, -, h⟩ := bind_ok.1 h
    exact (pure_ok.1 h).1.symm
  | false =>
    obtain ⟨_, _, hc, h⟩ := bind_ok.1 h
    obtain ⟨rfl, rfl⟩ := current_ok.1 hc
    have hnegative : isNegativeNumber w.cursor.current = true :=
      ho.resolve_left fun ho => by simp [Cursor.isAtAny_iff.2 ho] at hat
    rw [hnegative, if_pos rfl] at h
    obtain ⟨_, _, -, h⟩ := bind_ok.1 h
    exact (pure_ok.1 h).1.symm

theorem behindWord_text {e₀ : Expression} (ho : w.cursor.current.type ∈ operators ∨
    isNegativeNumber w.cursor.current = true) (hr : behindWord t e₀ w = .ok e v) :
    e.isShardingValue = false := by
  have raw : ∀ {start : ℕ} {x x' : Workspace Findings}, rawFrom start x = .ok e x' →
      e.isShardingValue = false := by
    intro start x x' h
    obtain ⟨rfl, -⟩ := rawFrom_ok.1 h
    rfl
  obtain ⟨dot, x, hdot, h⟩ := bind_ok.1 hr
  cases dot with
  | true =>
    simp only [if_true, bind_ok] at h
    obtain ⟨_, _, -, _, _, -, continued, _, -, h⟩ := h
    cases continued with
    | true => exact raw h
    | false =>
      obtain ⟨rfl, -⟩ := pure_ok.1 h
      rfl
  | false =>
    obtain ⟨-, rfl⟩ := skipIf_ok.1 hdot
    obtain ⟨call, x, hcall, hrest⟩ := bind_ok.1 h
    obtain ⟨-, rfl⟩ := isAt_ok.1 hcall
    cases call with
    | true =>
      simp only [if_true, bind_ok] at hrest
      obtain ⟨_, _, -, _, _, -, htext⟩ := hrest
      exact raw htext
    | false =>
      obtain ⟨continued, x, hc, htext⟩ := bind_ok.1 hrest
      obtain rfl := skipContinuation_true ho hc
      exact raw htext

theorem expression_compound (hw : w.cursor.Faces (t :: s :: ts)) (ht : t.type ≠ .symbol .leftParen)
    (hs : s.type ∈ shifts ∨ s.type ∈ operators ∨ isNegativeNumber s = true)
    (h : expression w = .ok e v) :
    (e.isShardingValue = true ↔ t.isOperand = true ∧ s.type ∈ shifts) ∧
      (s.type ∈ shifts → v.cursor.Faces (s :: ts)) := by
  have hp : w.cursor.Passes [t] (s :: ts) := Cursor.Faces.passes hw (by simp)
  by_cases hshift : s.type ∈ shifts
  · have hread := achieves_operand hp ht (endsOperand_shift hshift)
    obtain ⟨x, hx, hc, -⟩ := expression_operands h
    obtain ⟨rfl, hv, -⟩ := hread.property hx
    rw [operandValue_iff, hc]
    exact ⟨by simp [hshift], fun _ => by simpa using hv.faces⟩
  · have hraw : Settles w operandChain (fun e _ => e.isShardingValue = false) fun _ => True := by
      rw [operandChain_eq]
      apply settles_current.2
      apply settles_isAt.2
      rw [hp.isAt, List.cons_append, frontType_cons, beq_eq_false_iff_ne.2 ht, if_neg (by simp)]
      apply achieves_front hp
      intro x₁ h₁
      have hcurrent : x₁.cursor.current = s := h₁.passes.faces.current
      refine settles_of_run (fun e x hr => behindWord_text ?_ hr) fun _ => trivial
      rw [hcurrent]
      exact hs.resolve_left hshift
    obtain ⟨x, hx, -⟩ := expression_operands h
    have hnone : e.isShardingValue = false := hraw.property hx
    rw [hnone]
    exact ⟨by simp [hshift], fun h => (hshift h).elim⟩

theorem expression_part (hpart : SpellsPart us) (hw : w.cursor.Passes us more)
    (hm : endsOperand more = true) (h : expression w = .ok e v) :
    (e.isShardingValue = true ↔ ∃ t, us = [t] ∧ t.isOperand = true) ∧ v.cursor.Faces more := by
  obtain ⟨x, hx, hc, -⟩ := expression_operands h
  rw [hc]
  have single : ∀ {t : Token}, us = [t] → t.type ≠ .symbol .leftParen →
      (e.isShardingValue = true ↔ ∃ t, us = [t] ∧ t.isOperand = true) ∧ x.cursor.Faces more := by
    rintro t rfl ht
    obtain ⟨rfl, hv, -⟩ := (achieves_operand hw ht hm).property hx
    rw [operandValue_iff]
    exact ⟨by simp, hv.faces⟩
  cases hpart with
  | literal ht | placeholder ht => exact single rfl (by simp [ht])
  | column hcolumn =>
    cases hcolumn with
    | alone hn => exact single rfl (Token.not_leftParen_of_isName hn)
    | owned ho hd =>
      have hread := achieves_member hw (Token.isWord_of_isName ho) hd hm
      obtain ⟨rfl, hv, -⟩ := hread.property hx
      exact ⟨by simp [Expression.isShardingValue], hv.faces⟩

theorem shifted_iff : Shifted (t :: s :: ts) ↔ t.isOperand = true ∧ s.type ∈ shifts := by
  simp [Shifted]

theorem compound_read (hus : SpellsCompound us) (hw : w.cursor.Faces (us ++ more))
    (h : expression w = .ok e v) : (e.isShardingValue = true ↔ Shifted us) ∧
      (Shifted us → ∃ s ts, s.type ∈ shifts ∧ v.cursor.Faces (s :: ts)) := by
  obtain ⟨t, s, ts, rfl, ht, hs⟩ := hus.front
  obtain ⟨hvalue, hshift⟩ := expression_compound hw ht hs h
  rw [shifted_iff]
  exact ⟨hvalue, fun h => ⟨s, ts ++ more, h.2, hshift h.2⟩⟩

/-! ## What is recorded -/

theorem Conditions.add_ne (cs : Conditions) (c : Condition) : cs.add c ≠ cs := by
  intro h
  have hlength : (cs.add c).toList.length = cs.toList.length + 1 := by
    obtain ⟨groups⟩ := cs
    cases groups with
    | nil => rfl
    | cons g gs =>
      simp [add, toList]
      omega
  rw [h] at hlength
  omega

def ChoosesShards (rule : ShardingRule) (f : Findings) (left : Expression) : Prop :=
  ∃ column, findColumn? f left = some column ∧ rule.isShardingColumn column = true

theorem recordCondition_iff {left : Expression} {op : ConditionOperator} {values : List Expression}
    {u : Unit} (h : recordCondition rule left op values w = .ok u v) :
    v.draft.conditions ≠ w.draft.conditions ↔
      values.all Expression.isShardingValue = true ∧ ChoosesShards rule w.draft left := by
  obtain rfl := recordCondition_ok.1 h
  unfold ChoosesShards
  cases findColumn? w.draft left with
  | none => simp
  | some column =>
    by_cases hall : values.all Expression.isShardingValue = true <;>
      by_cases hc : rule.isShardingColumn column = true <;>
      simp [hall, hc, Findings.addCondition, Conditions.add_ne]

theorem betweenValues_compound {a : Token} {low high : List Token} {es : List Expression}
    (hlow : SpellsValue low) (ha : a.type = .keyword .AND)
    (hcompound : SpellsCompound low ∨ SpellsCompound high)
    (hw : w.cursor.Faces (low ++ a :: (high ++ more))) (h : betweenValues w = .ok es v) :
    es.all Expression.isShardingValue = true ↔ EndInShift [low, high] := by
  obtain ⟨e₁, w₁, h₁, h⟩ := bind_ok.1 h
  obtain ⟨_, w₂, hexpect, h⟩ := bind_ok.1 h
  obtain ⟨e₂, w₃, h₂, h⟩ := bind_ok.1 h
  obtain ⟨rfl, rfl⟩ := pure_ok.1 h
  by_cases hfirst : SpellsCompound low
  · -- In front of a shift no AND is found.
    obtain ⟨hvalue, hstop⟩ := compound_read hfirst hw h₁
    have hnot : ¬Shifted low := by
      intro hshift
      obtain ⟨s, ts, hs, hfaces⟩ := hstop hshift
      obtain ⟨hat, -⟩ := expect_ok.1 hexpect
      rw [hfaces.isAt, frontType_cons, beq_iff_eq] at hat
      simp [hat, shifts] at hs
    have hlength := hfirst.length
    have hsingle : ¬∃ t, low = [t] ∧ t.isOperand = true := by
      rintro ⟨t, rfl, -⟩
      simp at hlength
    have hnone : e₁.isShardingValue = false := by
      rwa [← hvalue, Bool.not_eq_true] at hnot
    simp [EndInShift, hsingle, hnone]
  · have hand : endsOperand (a :: (high ++ more)) = true := endsOperand_keyword ha
    have hpart := hlow.compound_or_part.resolve_left hfirst
    obtain ⟨hlow, hw₁⟩ := expression_part hpart (hw.passes (by simp)) hand h₁
    obtain ⟨hw₂, -⟩ := expect_front hw₁ hexpect
    obtain ⟨hhigh, -⟩ := compound_read (hcompound.resolve_left hfirst) hw₂ h₂
    simp [EndInShift, hlow, hhigh]

theorem comparisonOf_compound {left : Expression} {op : ConditionOperator}
    {values : List (List Token)} {test : List Token} {u : Unit}
    (htest : SpellsValueTest op values test) (hcompound : ∃ x ∈ values, SpellsCompound x)
    (hw : w.cursor.Faces (test ++ more)) (h : comparisonOf rule left w = .ok u v) :
    v.draft.conditions ≠ w.draft.conditions ↔
      EndInShift values ∧ ChoosesShards rule w.draft left := by
  -- What the values are read from leaves the conditions and the tables as they are.
  have record : ∀ {w₁ w₂ : Workspace Findings} {es : List Expression}, w₁.draft = w.draft →
      Progress (fun _ => True) False False w₁ w₂ → recordCondition rule left op es w₂ = .ok u v →
      (es.all Expression.isShardingValue = true ↔ EndInShift values) →
      (v.draft.conditions ≠ w.draft.conditions ↔
        EndInShift values ∧ ChoosesShards rule w.draft left) := by
    intro w₁ w₂ es hd hp hr hes
    have hrecord := recordCondition_iff hr
    unfold ChoosesShards at hrecord ⊢
    rwa [hp.conditions_eq, hd, hes, findColumn?_congr hp.tables_eq, hd] at hrecord
  cases htest with
  | @equal e value he hvalue =>
    obtain ⟨b, w₁, hskip, h⟩ := bind_ok.1 h
    obtain ⟨rfl, hw₁, hd⟩ := skipIf_front hw (by simp [he]) hskip
    obtain ⟨right, w₂, hright, h⟩ := bind_ok.1 h
    obtain ⟨hread, -⟩ := compound_read (by simpa using hcompound) hw₁ hright
    exact record hd (follows_expression hright) h (by simpa [EndInShift] using hread)
  | @between b a low high hb hlow ha hhigh =>
    replace h := skipIf_other hw (by simp [hb]) h
    replace h := skipIf_other hw (by simp [hb]) h
    obtain ⟨b, w₁, hskip, h⟩ := bind_ok.1 h
    obtain ⟨rfl, hw₁, hd⟩ := skipIf_front hw (by simp [hb]) hskip
    obtain ⟨es, w₂, hes, h⟩ := bind_ok.1 h
    have hread := betweenValues_compound hlow ha (by simpa using hcompound) (by simpa using hw₁) hes
    exact record hd (follows_betweenValues hes) h hread

theorem SpellsValueTest.ends {op : ConditionOperator} {values : List (List Token)}
    {test : List Token} (h : SpellsValueTest op values test) : test ≠ [] ∧
      endsOperand (test ++ more) = true ∧ frontType (test ++ more) ≠ .symbol .rightParen := by
  cases h with
  | equal ht | between ht => simp [endsOperand, operators, isNegativeNumber, ht]

theorem run_of_text {σ α : Type} {d : Dialect} {sql : String} {p : Parser σ α} {s : σ} {a : α}
    (h : ((Cursor.ofText d sql).advance.toOption.bind fun c => EStateM.run' p ⟨c, s⟩) = some a) :
    ∃ c v, (Cursor.ofText d sql).advance = .ok c ∧ p ⟨c, s⟩ = .ok a v := by
  cases hc : (Cursor.ofText d sql).advance with
  | error f =>
    rw [hc] at h
    cases h
  | ok c =>
    rw [hc] at h
    have hrun : EStateM.run' p ⟨c, s⟩ = some a := h
    unfold EStateM.run' EStateM.run at hrun
    split at hrun
    · next b v hv => exact ⟨c, v, rfl, by rw [hv, Option.some.inj hrun]⟩
    · cases hrun

/-- A comparison with a compound value is recorded exactly where the last of its values is a
literal or a placeholder that is shifted, those before it are operands by themselves, and the
column chooses shards. -/
theorem compound_recorded_iff {op : ConditionOperator} {values : List (List Token)}
    {opening column closing test : List Token} {owner? : Option Token} {name : Token}
    (hopening : ∀ t ∈ opening, t.type = .symbol .leftParen)
    (hcolumn : Comparison.SpellsColumn owner? name column)
    (hclosing : ∀ t ∈ closing, t.type = .symbol .rightParen)
    (hlength : closing.length ≤ opening.length) (htest : SpellsValueTest op values test)
    (hcompound : ∃ x ∈ values, SpellsCompound x)
    (hw : w.cursor.Faces (opening ++ (column ++ (closing ++ (test ++ more)))))
    (h : comparison rule w = .ok () v) :
    v.draft.conditions ≠ w.draft.conditions ↔
      EndInShift values ∧ ChoosesShards rule w.draft (columnExpression owner? name) := by
  obtain ⟨hne, hends, hright⟩ := htest.ends
  obtain ⟨x, hx, hfront⟩ := hcolumn.front (closing ++ (test ++ more))
  have hp : w.cursor.Passes (opening ++ (column ++ closing)) (test ++ more) :=
    Cursor.Faces.passes (by simpa using hw) (by simp [hne])
  obtain ⟨n, w₁, hopen, h⟩ := bind_ok.1 h
  have hopened := achieves_openParentheses hopening
    (by simpa [hfront] using Token.not_leftParen_of_isName hx)
    (by simpa [hfront] using Token.not_select_of_isName hx) hp
  obtain ⟨rfl, hw₁, hd₁⟩ := hopened.property hopen
  obtain ⟨left, w₂, hleft, h⟩ := bind_ok.1 h
  have hread := achieves_column hcolumn hw₁ (endsOperand_closing hclosing hends)
  obtain ⟨rfl, hw₂, hc₂⟩ := hread.property hleft
  obtain ⟨m, w₃, hclose, h⟩ := bind_ok.1 h
  have hp₂ : w₂.cursor.Passes (closing ++ []) (test ++ more) := by simpa using hw₂
  have hclosed : Achieves w₂ (closeParentheses opening.length) fun m v =>
      m = closing.length ∧ v.cursor.Passes [] (test ++ more) ∧ v.draft = w₂.draft :=
    achieves_closeParentheses hclosing hlength (Or.inr hright) hp₂
  obtain ⟨rfl, hw₃, hd₃⟩ := hclosed.property hclose
  obtain ⟨_, w₄, hcomparison, h⟩ := bind_ok.1 h
  have hrecord := comparisonOf_compound htest hcompound hw₃.faces hcomparison
  obtain ⟨_, w₅, hend, h⟩ := bind_ok.1 h
  obtain ⟨-, rfl⟩ := pure_ok.1 h
  have hkept : Progress (fun _ => True) False False w₄ w₅ := follows_closeParentheses _ hend
  have hcolumn₃ : Collects w 0 [] w₃ := ((Collects.of_eq hd₁).trans hc₂).congr hd₃.symm
  have hconditions : w₃.draft.conditions = w.draft.conditions := by
    obtain ⟨edits, hd⟩ := hcolumn₃
    rw [hd]
    rfl
  unfold ChoosesShards at hrecord ⊢
  rwa [hkept.conditions_eq, ← hconditions, ← findColumn?_congr hcolumn₃.tables]

/-- The high value is compound, so the comparison of the sharding column is not recorded. -/
theorem compound_recorded_iff_product : ∃ c v, (Cursor.ofText .mysql
      "(o.user_id) BETWEEN ? AND 2 * 3").advance = .ok c ∧
    comparison ⟨[("t_order", ⟨["user_id"], none⟩)], none⟩
      ⟨c, { kind := .dql, tables := ⟨[⟨"t_order", some "o"⟩]⟩ }⟩ = .ok () v ∧
    v.draft.conditions = .empty := by
  have hread : ((Cursor.ofText .mysql "(o.user_id) BETWEEN ? AND 2 * 3").advance.toOption.bind
      fun c => EStateM.run' (comparison ⟨[("t_order", ⟨["user_id"], none⟩)], none⟩)
        ⟨c, { kind := .dql, tables := ⟨[⟨"t_order", some "o"⟩]⟩ }⟩) = some () := by
    decide +kernel
  obtain ⟨c, v, hc, hrun⟩ := run_of_text hread
  have hfaces := Cursor.ofText_faces hc
  have htokens : (TokenStream.ofText .mysql "(o.user_id) BETWEEN ? AND 2 * 3".toList).tokens =
      [⟨.symbol .leftParen, "(", 0, 1⟩] ++ ([⟨.literal .identifier, "o", 1, 2⟩,
        ⟨.symbol .dot, ".", 2, 3⟩, ⟨.literal .identifier, "user_id", 3, 10⟩] ++
      ([⟨.symbol .rightParen, ")", 10, 11⟩] ++ ((⟨.keyword .BETWEEN, "BETWEEN", 12, 19⟩ ::
        (([⟨.symbol .question, "?", 20, 21⟩] ++ []) ++ ⟨.keyword .AND, "AND", 22, 25⟩ ::
          ([⟨.literal .int, "2", 26, 27⟩] ++ ⟨.symbol .star, "*", 28, 29⟩ ::
            ([⟨.literal .int, "3", 30, 31⟩] ++ [])))) ++ []))) := by
    decide +kernel
  rw [htokens] at hfaces
  have hproduct : SpellsOperations (⟨.symbol .star, "*", 28, 29⟩ ::
      ([⟨.literal .int, "3", 30, 31⟩] ++ [])) :=
    .operator (by decide) (.literal rfl) .nil
  have hpart : SpellsPart [⟨.literal .int, "2", 26, 27⟩] := .literal rfl
  have hiff := compound_recorded_iff (by decide) (.owned rfl rfl rfl) (by decide) (by decide)
    (.between rfl (.intro (.placeholder rfl) .nil) rfl (.intro hpart hproduct))
    ⟨_, by simp, .intro hpart hproduct (by simp)⟩ hfaces hrun
  refine ⟨c, v, hc, hrun, ?_⟩
  by_contra hne
  obtain ⟨⟨-, hshift⟩, -⟩ := hiff.1 hne
  have hstar : (⟨.symbol .star, "*", 28, 29⟩ : Token).type ∈ shifts := (shifted_iff.1 hshift).2
  exact absurd hstar (by decide)

/-- The operand in front of the shift is recorded for the sharding column. -/
theorem shifted_value_recorded : ∃ s head column test v,
    parse .mysql ⟨[("t_order", ⟨["user_id"], none⟩)], none⟩ ⟨[]⟩
      "SELECT * FROM t_order WHERE user_id = 1 << 2" = .ok s ∧
    (TokenStream.ofText .mysql "SELECT * FROM t_order WHERE user_id = 1 << 2".toList).tokens =
      head ++ ⟨.keyword .WHERE, "WHERE", 22, 27⟩ :: (column ++ test) ∧
    Comparison.SpellsColumn none ⟨.literal .identifier, "user_id", 28, 35⟩ column ∧
    SpellsValueTest .equal [v] test ∧ SpellsCompound v ∧
    s.findings.conditions = ⟨[⟨[⟨⟨"user_id", "t_order"⟩, .equal, [.number (.integer 1)]⟩]⟩]⟩ := by
  obtain ⟨s, hs, hconditions⟩ := parse_of_view .mysql
    ⟨[("t_order", ⟨["user_id"], none⟩)], none⟩ ⟨[]⟩ "SELECT * FROM t_order WHERE user_id = 1 << 2"
    (fun s => s.findings.conditions)
    ⟨[⟨[⟨⟨"user_id", "t_order"⟩, .equal, [.number (.integer 1)]⟩]⟩]⟩ (by decide +kernel)
  have hpart : SpellsPart [⟨.literal .int, "1", 38, 39⟩] := .literal rfl
  have hshift : SpellsOperations (⟨.symbol .shiftLeft, "<<", 40, 42⟩ ::
      ([⟨.literal .int, "2", 43, 44⟩] ++ [])) :=
    .operator (by decide) (.literal rfl) .nil
  exact ⟨s, [⟨.keyword .SELECT, "SELECT", 0, 6⟩, ⟨.symbol .star, "*", 7, 8⟩,
    ⟨.keyword .FROM, "FROM", 9, 13⟩, ⟨.literal .identifier, "t_order", 14, 21⟩], _, _, _, hs,
    by decide +kernel, .alone rfl, .equal (e := ⟨.symbol .equal, "=", 36, 37⟩) rfl
      (.intro hpart hshift), .intro hpart hshift (by simp), hconditions⟩

end SqlFront

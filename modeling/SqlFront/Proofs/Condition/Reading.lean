import SqlFront.Proofs.Condition.Comparison
import SqlFront.Proofs.Progress.Select

/-!
# What is read of a formula

From the tokens of a formula the machine goes on as the formula tells: behind it, or no further
than the parenthesis or the OR at which its reading ends. What it leaves behind are conditions of
the comparisons that it has read.
-/

set_option autoImplicit false

namespace SqlFront

open SqlFront.Parser SqlFront.Clause

variable {rule : ShardingRule} {w w₁ w' : Workspace Findings} {ts more : List Token}

/-!
## Reading a formula

The reader of WHERE goes through a formula comparison by comparison. It counts the parentheses in
front of a comparison and lets as many close behind it. As a machine it has two kinds of states,
one in front of a comparison and one behind it, each with a number of parentheses.
-/

inductive Phase
  | opening (n : ℕ)
  | closing (n : ℕ)

inductive Chain (rule : ShardingRule) : Phase → Workspace Findings → Workspace Findings → Prop
  | opens {n : ℕ} {w w' : Workspace Findings} {c : Cursor} :
      w.cursor.isAt (.symbol .leftParen) = true → w.cursor.advance = .ok c →
      Chain rule (.opening (n + 1)) ⟨c, w.draft⟩ w' → Chain rule (.opening n) w w'
  | compares {n closed : ℕ} {w w₁ w₂ w₃ w' : Workspace Findings} {left : Expression} {u : Unit} :
      (w.cursor.isAt (.symbol .leftParen) = true → AtSubQuery w.cursor) →
      expression w = .ok left w₁ → closeParentheses n w₁ = .ok closed w₂ →
      comparisonOf rule left w₂ = .ok u w₃ → Chain rule (.closing (n - closed)) w₃ w' →
      Chain rule (.opening n) w w'
  | closes {n : ℕ} {w w' : Workspace Findings} {c : Cursor} :
      w.cursor.isAt (.symbol .rightParen) = true → w.cursor.advance = .ok c →
      Chain rule (.closing n) ⟨c, w.draft⟩ w' → Chain rule (.closing (n + 1)) w w'
  | joins {n : ℕ} {w w' : Workspace Findings} {c : Cursor} :
      (w.cursor.isAt (.symbol .rightParen) = true → n = 0) →
      w.cursor.isAtAny [.keyword .AND] = true → w.cursor.advance = .ok c →
      Chain rule (.opening 0) ⟨c, w.draft⟩ w' → Chain rule (.closing n) w w'
  | ends {n : ℕ} {w : Workspace Findings} :
      (w.cursor.isAt (.symbol .rightParen) = true → n = 0) →
      w.cursor.isAtAny [.keyword .AND] = false → Chain rule (.closing n) w w

/-! ## The reader as a machine -/

/-- Closing parentheses are passed one by one; where no more closes, the rest of their number no
longer matters. -/
theorem Chain.close {n m : ℕ} (hr : closeParentheses n w = .ok m w₁)
    (h : Chain rule (.closing 0) w₁ w') : Chain rule (.closing n) w w' := by
  induction n generalizing w m with
  | zero =>
    obtain ⟨-, rfl⟩ := pure_ok.1 hr
    exact h
  | succ n ih =>
    obtain ⟨b, v, hb, hrest⟩ := bind_ok.1 hr
    obtain ⟨hat, hv⟩ := skipIf_ok.1 hb
    rw [Cursor.isAtAny_singleton] at hat
    cases b with
    | true =>
      obtain ⟨c, hc, rfl⟩ := hv
      obtain ⟨m, v', hm, hrest⟩ := bind_ok.1 hrest
      obtain ⟨-, rfl⟩ := pure_ok.1 hrest
      exact .closes hat hc (ih hm)
    | false =>
      obtain rfl := hv
      obtain ⟨-, rfl⟩ := pure_ok.1 hrest
      have hno : v.cursor.isAt (.symbol .rightParen) = true → n + 1 = 0 := by
        simp [hat]
      cases h with
      | joins _ hand hc h => exact .joins hno hand hc h
      | ends _ hand => exact .ends hno hand

theorem Chain.open {n : ℕ} (hr : openParentheses w = .ok n w₁)
    (h : (w₁.cursor.isAt (.symbol .leftParen) = true → AtSubQuery w₁.cursor) →
      Chain rule (.opening n) w₁ w') : Chain rule (.opening 0) w w' := by
  refine repeatFrom_induct
    (I := fun k v => Chain rule (.opening k) v w' → Chain rule (.opening 0) w w')
    (Q := fun k v => ((v.cursor.isAt (.symbol .leftParen) = true → AtSubQuery v.cursor) →
      Chain rule (.opening k) v w') → Chain rule (.opening 0) w w') ?_ ?_ id hr h
  · intro k k' v v' hI hs hk
    obtain ⟨b, _, hb, hs⟩ := bind_ok.1 hs
    obtain ⟨hat, rfl⟩ := isAt_ok.1 hb
    cases b with
    | false => cases hs
    | true =>
      obtain ⟨b, _, hb, hs⟩ := bind_ok.1 hs
      obtain ⟨rfl, -⟩ := isAtSubQuery_ok.1 hb
      cases b with
      | true => cases hs
      | false =>
        obtain ⟨_, _, ha, hs⟩ := bind_ok.1 hs
        obtain ⟨c, hc, rfl⟩ := advance_ok.1 ha
        cases hs
        exact hI (.opens hat hc hk)
  · intro k k' v v' hI hs hk
    obtain ⟨b, _, hb, hs⟩ := bind_ok.1 hs
    obtain ⟨hat, rfl⟩ := isAt_ok.1 hb
    cases b with
    | false =>
      cases hs
      exact hI (hk fun hp => by simp [hat] at hp)
    | true =>
      obtain ⟨b, _, hb, hs⟩ := bind_ok.1 hs
      obtain ⟨rfl, hsub⟩ := atSubQuery_of_ok hb
      cases b with
      | true =>
        cases hs
        exact hI (hk fun _ => hsub.1 rfl)
      | false =>
        obtain ⟨_, _, ha, hs⟩ := bind_ok.1 hs
        cases hs

theorem Chain.comparison {u : Unit} (hr : comparison rule w = .ok u w₁)
    (h : Chain rule (.closing 0) w₁ w') : Chain rule (.opening 0) w w' := by
  obtain ⟨opened, v, hopen, hr⟩ := bind_ok.1 hr
  obtain ⟨left, v₁, hleft, hr⟩ := bind_ok.1 hr
  obtain ⟨closed, v₂, hclosed, hr⟩ := bind_ok.1 hr
  obtain ⟨_, v₃, hop, hr⟩ := bind_ok.1 hr
  obtain ⟨m, v₄, hclose, hr⟩ := bind_ok.1 hr
  obtain ⟨-, rfl⟩ := pure_ok.1 hr
  exact .open hopen fun hp => .compares hp hleft hclosed hop (.close hclose h)

theorem Chain.separated {us : List Unit}
    (h : Separated [.keyword .AND] (Clause.comparison rule) w us w') :
    Chain rule (.opening 0) w w' := by
  induction h with
  | last hx hat => exact .comparison hx (.ends (fun _ => rfl) hat)
  | next hx hat hc _ ih => exact .comparison hx (.joins (fun _ => rfl) hat hc ih)

theorem whereClause_chain {u : Unit} (h : whereClause rule w = .ok u w') :
    (w.cursor.isAtAny [.keyword .WHERE] = false ∧ w' = w) ∨
      ∃ c, w.cursor.isAtAny [.keyword .WHERE] = true ∧ w.cursor.advance = .ok c ∧
        Chain rule (.opening 0) ⟨c, w.draft⟩ w' ∧ w'.cursor.isAt (.keyword .OR) = false := by
  obtain ⟨b, w₁, hb, h⟩ := bind_ok.1 h
  obtain ⟨hat, hw⟩ := skipIf_ok.1 hb
  cases b with
  | false =>
    obtain ⟨-, rfl⟩ := pure_ok.1 h
    exact Or.inl ⟨hat, hw⟩
  | true =>
    obtain ⟨c, hc, rfl⟩ := hw
    obtain ⟨us, w₂, hus, h⟩ := bind_ok.1 h
    obtain ⟨b, w₃, hb', h⟩ := bind_ok.1 h
    obtain ⟨hor, rfl⟩ := isAt_ok.1 hb'
    cases b with
    | true => exact (failAt_ok.1 h).elim
    | false =>
      obtain ⟨-, rfl⟩ := pure_ok.1 h
      exact Or.inr ⟨c, hat, hc, .separated (separated_run hus), hor⟩

/-! ## What is read of a formula -/

def Recorded (cs : List Comparison) (w w' : Workspace Findings) : Prop :=
  ∀ x ∈ w'.draft.conditions.toList, x ∈ w.draft.conditions.toList ∨
    ∃ c ∈ cs, ∃ table, x = c.condition table

theorem Recorded.append {cs ds : List Comparison} (h₁ : Recorded cs w w₁)
    (h₂ : Recorded ds w₁ w') : Recorded (cs ++ ds) w w' := by
  intro x hx
  rcases h₂ x hx with hx | ⟨c, hc, h⟩
  · rcases h₁ x hx with hx | ⟨c, hc, h⟩
    · exact Or.inl hx
    · exact Or.inr ⟨c, List.mem_append_left _ hc, h⟩
  · exact Or.inr ⟨c, List.mem_append_right _ hc, h⟩

def Outcome.Goes (rule : ShardingRule) (more : List Token) (w w' : Workspace Findings) :
    Outcome → Prop
  | .closing n => w.cursor.Faces more ∧ Chain rule (.closing n) w w'
  | .stopped => w' = w
  | .refused => w' = w ∧ w.cursor.isAt (.keyword .OR) = true

/-! ## Comparisons -/

theorem Comparison.SpellsColumn.front {o? : Option Token} {n : Token} {us : List Token}
    (hs : SpellsColumn o? n us) (more : List Token) :
    ∃ t : Token, t.isName = true ∧ frontType (us ++ more) = t.type := by
  cases hs with
  | alone hn => exact ⟨n, hn, rfl⟩
  | owned ho => exact ⟨_, ho, rfl⟩

theorem Comparison.SpellsRelation.front {op : ConditionOperator} {vs us : List Token}
    (hs : SpellsRelation op vs us) (more : List Token) :
    endsOperand (us ++ more) = true ∧ frontType (us ++ more) ≠ .symbol .rightParen := by
  cases hs with
  | equal ht | oneOf ht | between ht =>
    simp [endsOperand, operators, isNegativeNumber, ht]

theorem Comparison.SpellsRelation.ne_nil {op : ConditionOperator} {vs us : List Token}
    (hs : SpellsRelation op vs us) : us ≠ [] := by
  cases hs <;> simp

theorem Token.not_leftParen_of_isName {t : Token} (h : t.isName = true) :
    t.type ≠ .symbol .leftParen := by
  intro ht
  simp [isName, ht] at h

theorem Token.not_select_of_isName {t : Token} (h : t.isName = true) :
    t.type ≠ .keyword .SELECT := by
  intro ht
  simp [isName, ht] at h

theorem closeParentheses_other {n m : ℕ} (hw : w.cursor.Faces ts)
    (ht : frontType ts ≠ .symbol .rightParen) (h : closeParentheses n w = .ok m w') :
    m = 0 ∧ w' = w := by
  cases n with
  | zero =>
    obtain ⟨rfl, rfl⟩ := pure_ok.1 h
    exact ⟨rfl, rfl⟩
  | succ n =>
    replace h := skipIf_other hw (by simpa using ht) h
    obtain ⟨rfl, rfl⟩ := pure_ok.1 h
    exact ⟨rfl, rfl⟩

theorem Comparison.Spells.chain {c : Comparison} {n : ℕ} (hs : c.Spells ts)
    (hm : endsOperand more = true) (hw : w.cursor.Faces (ts ++ more))
    (h : Chain rule (.opening n) w w') :
    ∃ v, Recorded [c] w v ∧ v.cursor.Faces more ∧ Chain rule (.closing n) v w' := by
  obtain ⟨us, vs, hus, hvs, rfl⟩ := hs
  rw [List.append_assoc] at hw
  cases h with
  | opens hp =>
    obtain ⟨t, ht, hfront⟩ := hus.front (vs ++ more)
    rw [Cursor.isAt_iff, hw.type, hfront] at hp
    exact (Token.not_leftParen_of_isName ht hp).elim
  | compares _ hleft hclosed hop hchain =>
    obtain ⟨hend, hclose⟩ := hvs.front more
    obtain ⟨hw₁, hd, he⟩ := hus.expression hw hend hleft
    obtain ⟨rfl, rfl⟩ := closeParentheses_other hw₁ hclose hclosed
    obtain ⟨hw₃, ha⟩ := comparisonOf_adds hvs hw₁ hm he hop
    refine ⟨_, fun x hx => ?_, hw₃, hchain⟩
    rw [← hd]
    exact (ha x hx).imp_right fun hx => ⟨c, List.mem_singleton_self c, hx⟩

/-! ## Formulas -/

theorem Formula.Spells.front {b : Formula} (hs : b.Spells ts) (more : List Token) :
    ts ≠ [] ∧ frontType (ts ++ more) ≠ .keyword .SELECT := by
  induction hs generalizing more with
  | comparison hc =>
    obtain ⟨us, vs, hus, hvs, rfl⟩ := hc
    obtain ⟨t, ht, hfront⟩ := hus.front (vs ++ more)
    constructor
    · exact List.append_ne_nil_of_right_ne_nil us hvs.ne_nil
    · rw [List.append_assoc, hfront]
      exact Token.not_select_of_isName ht
  | group hx => exact ⟨by simp, by simp [hx]⟩
  | and _ _ _ _ _ ihl | or _ _ _ ihl =>
    exact ⟨by simp, by rw [List.append_assoc]; exact (ihl (_ ++ more)).2⟩

/-- A parenthesis behind a formula closes one that was opened for its last comparison, or it ends
the reading. -/
theorem Chain.rightParen {n : ℕ} {y : Token} (hy : y.type = .symbol .rightParen)
    (hw : w.cursor.Faces (y :: more)) (h : Chain rule (.closing n) w w') :
    (n = 0 ∧ w' = w) ∨ ∃ m c, n = m + 1 ∧ w.cursor.advance = .ok c ∧
      Chain rule (.closing m) ⟨c, w.draft⟩ w' := by
  have hp : w.cursor.isAt (.symbol .rightParen) = true := by
    rw [Cursor.isAt_iff, hw.type]
    exact hy
  cases h with
  | closes _ hc h => exact Or.inr ⟨_, _, rfl, hc, h⟩
  | joins _ hand => simp [hw.isAtAny, hy] at hand
  | ends hn => exact Or.inl ⟨hn hp, rfl⟩

theorem Formula.Spells.chain {b : Formula} {n : ℕ} (hs : b.Spells ts)
    (hm : endsOperand more = true) (hw : w.cursor.Faces (ts ++ more))
    (h : Chain rule (.opening n) w w') :
    ∃ v, Recorded (b.comparisonsRead n) w v ∧ (b.outcome n).Goes rule more v w' := by
  induction hs generalizing n w more with
  | comparison hc =>
    obtain ⟨v, hv, hgoes⟩ := hc.chain hm hw h
    exact ⟨v, hv, hgoes⟩
  | @group b x y ts hx hy hb ih =>
    have hend : endsOperand (y :: more) = true := by
      simp [endsOperand, operators, isNegativeNumber, hy]
    rw [List.append_assoc, List.cons_append] at hw
    cases h with
    | compares hsub =>
      obtain ⟨-, t, ht, hselect⟩ := hsub (by rw [Cursor.isAt_iff, hw.type]; exact hx)
      rw [hw.peek ht] at hselect
      exact ((hb.front _).2 hselect).elim
    | opens _ hc h =>
      obtain ⟨v, hv, hgoes⟩ := ih hend (hw.advance hc) h
      rw [outcome]
      cases ho : b.outcome (n + 1) with
      | stopped | refused =>
        rw [ho] at hgoes
        exact ⟨v, hv, hgoes⟩
      | closing m =>
        rw [ho] at hgoes
        obtain ⟨hfaces, hchain⟩ := hgoes
        rcases hchain.rightParen hy hfaces with ⟨rfl, rfl⟩ | ⟨m, c, rfl, hc, hchain⟩
        · exact ⟨w', hv, rfl⟩
        · exact ⟨⟨c, v.draft⟩, hv, hfaces.advance hc, hchain⟩
  | @and l r x ts us _ _ hx hl hr ihl ihr =>
    have hend : endsOperand (x :: us ++ more) = true := by
      simp [endsOperand, operators, isNegativeNumber, hx]
    rw [List.append_assoc] at hw
    obtain ⟨v, hv, hgoes⟩ := ihl hend hw h
    rw [outcome, comparisonsRead]
    cases ho : l.outcome n with
    | stopped | refused =>
      rw [ho] at hgoes
      simpa [Outcome.isClosing] using ⟨v, hv, hgoes⟩
    | closing m =>
      -- The left side is closed, and the reading goes on behind AND.
      rw [ho] at hgoes
      obtain ⟨hfaces, hchain⟩ := hgoes
      simp only [Outcome.isClosing, if_true]
      cases hchain with
      | closes hp => simp [hfaces.isAt, hx] at hp
      | ends _ hand => simp [hfaces.isAtAny, hx] at hand
      | joins _ _ hc hchain =>
        obtain ⟨v', hv', hgoes⟩ := ihr hm (hfaces.advance hc) hchain
        exact ⟨v', hv.append hv', hgoes⟩
  | @or l r x ts us hx hl hr ihl ihr =>
    have hend : endsOperand (x :: us ++ more) = true := by
      simp [endsOperand, operators, isNegativeNumber, hx]
    rw [List.append_assoc] at hw
    obtain ⟨v, hv, hgoes⟩ := ihl hend hw h
    refine ⟨v, hv, ?_⟩
    rw [outcome]
    cases ho : l.outcome n with
    | stopped | refused =>
      rw [ho] at hgoes
      exact hgoes
    | closing m =>
      rw [ho] at hgoes
      obtain ⟨hfaces, hchain⟩ := hgoes
      have hor : v.cursor.isAt (.keyword .OR) = true := by
        rw [Cursor.isAt_iff, hfaces.type]
        exact hx
      -- Only here the clause ends in front of OR, where it is refused.
      cases hchain with
      | closes hp => simp [hfaces.isAt, hx] at hp
      | joins _ hand => simp [hfaces.isAtAny, hx] at hand
      | ends => exact ⟨rfl, hor⟩

/-! ## The clause -/

def endsFormula (ts : List Token) : Bool :=
  endsOperand ts &&
    !([TokenType.symbol .rightParen, .keyword .AND, .keyword .OR].contains (frontType ts))

theorem whereClause_formula {b : Formula} {wh : Token} {u : Unit} (hs : b.Spells ts)
    (hwh : wh.type = .keyword .WHERE) (hm : endsFormula more = true)
    (hw : w.cursor.Faces (wh :: (ts ++ more))) (h : whereClause rule w = .ok u w') :
    Recorded (b.comparisonsRead 0) w w' ∧ b.outcome 0 ≠ .refused := by
  simp only [endsFormula, Bool.and_eq_true] at hm
  rcases whereClause_chain h with ⟨hat, -⟩ | ⟨c, -, hc, hchain, hor⟩
  · simp [hw.isAtAny, hwh] at hat
  · obtain ⟨v, hv, hgoes⟩ := hs.chain hm.1 (hw.advance hc) hchain
    cases ho : b.outcome 0 with
    | stopped =>
      rw [ho] at hgoes
      obtain rfl := hgoes
      exact ⟨hv, by simp⟩
    | refused =>
      rw [ho] at hgoes
      obtain ⟨rfl, hat⟩ := hgoes
      simp [hat] at hor
    | closing n =>
      rw [ho] at hgoes
      obtain ⟨hfaces, hchain⟩ := hgoes
      cases hchain with
      | closes hp =>
        simp only [hfaces.isAt, beq_iff_eq] at hp
        simp [hp] at hm
      | joins _ hand =>
        simp only [hfaces.isAtAny, List.contains_eq_mem, List.mem_singleton, decide_eq_true_eq]
          at hand
        simp [hand] at hm
      | ends => exact ⟨hv, by simp⟩

end SqlFront

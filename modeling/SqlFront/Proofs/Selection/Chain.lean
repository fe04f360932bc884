import SqlFront.Proofs.Selection.Item
import SqlFront.Proofs.SortKey.Whole
import SqlFront.Proofs.SourceSpan

/-!
# Chains of a select list

An item of a select list that is kept as text is a chain: a first operand, and behind it operators
with their operands and negative numbers. A chain is moved past with its placeholders counted, and
its text goes from its first token to its last one.
-/

set_option autoImplicit false

namespace SqlFront

open SqlFront.Parser SqlFront.Clause

variable {d : Dialect} {rule : ShardingRule} {w v x : Workspace Findings} {o j t l : Token}
  {ts us as steps inside more : List Token}

/-! ## Behind the first operand -/

inductive ItemOperand : List Token → Prop
  | operand {us : List Token} : Operand us → frontType us ≠ .keyword .CASE → ItemOperand us
  | choice {c : Token} {us : List Token} : c.type = .keyword .CASE → Chooses 1 us →
      ItemOperand (c :: us)

inductive ItemSteps : List Token → Prop
  | nil : ItemSteps []
  | negative {t : Token} {ts : List Token} : isNegativeNumber t = true → ItemSteps ts →
      ItemSteps (t :: ts)
  | operator {o : Token} {us ts : List Token} : o.type ∈ operators → ItemOperand us →
      ItemSteps ts → ItemSteps (o :: (us ++ ts))

theorem ItemSteps.front (h : ItemSteps ts) (us : List Token) : ts = [] ∨
    frontType (ts ++ us) ∈ TokenType.literal .int :: .literal .float :: operators := by
  cases h with
  | nil => exact Or.inl rfl
  | @negative t _ hn =>
    simp only [isNegativeNumber, Bool.and_eq_true, Bool.or_eq_true, beq_iff_eq] at hn
    rcases hn.1 with hn | hn <;> simp [hn]
  | operator ho => exact Or.inr (List.mem_cons_of_mem _ (List.mem_cons_of_mem _ ho))

/-- Steps do not begin with these types. -/
theorem ItemSteps.front_ne (h : ItemSteps ts) {x : TokenType}
    (hx : x ∉ TokenType.literal .int :: .literal .float :: operators) (hus : frontType us ≠ x) :
    frontType (ts ++ us) ≠ x := by
  rcases h.front us with rfl | hfront
  · exact hus
  · exact fun hfront' => hx (hfront' ▸ hfront)

theorem achieves_itemOperand (h : ItemOperand us)
    (hend : frontType (ts ++ more) ≠ .symbol .leftParen) (hw : w.cursor.Passes (us ++ ts) more) :
    Achieves w skipTurnOperand fun _ => Passed w (placeholderCount us) us ts more := by
  unfold skipTurnOperand
  apply settles_isAt.2
  rw [hw.isAt]
  cases h with
  | operand h hcase =>
    rw [List.append_assoc, frontType_append h.ne_nil, beq_eq_false_iff_ne.2 hcase, if_neg (by simp)]
    exact achieves_wholeOperand h (fun _ => hend) hw
  | choice hc hus =>
    rw [List.cons_append, List.cons_append, frontType_cons, hc, beq_self_eq_true, if_pos rfl]
    exact achieves_choice hc hus hw

theorem achieves_negativeStep (hn : isNegativeNumber t = true)
    (hw : w.cursor.Passes (t :: ts) more) :
    Achieves w nextOperand fun b v =>
      b = true ∧ Passed w (placeholderCount [t]) [t] ts more v := by
  have hq : t.type ≠ .symbol .question := by
    intro hq
    simp [isNegativeNumber, hq] at hn
  rw [nextOperand_eq]
  apply settles_current.2
  rw [hw.current, if_pos hn]
  apply (achieves_advance hw).bind
  intro _ v hv
  exact Settles.pure ⟨rfl, hv.passed hw hq⟩

theorem achieves_operatorStep (ho : o.type ∈ operators) (hus : ItemOperand us)
    (hparen : frontType (ts ++ more) ≠ .symbol .leftParen)
    (hw : w.cursor.Passes (o :: (us ++ ts)) more) :
    Achieves w nextOperand fun b v =>
      b = true ∧ Passed w (placeholderCount (o :: us)) (o :: us) ts more v := by
  have hneg : isNegativeNumber o = false := by
    by_contra hn
    exact not_operator_of_negative (by simpa using hn) ho
  rw [nextOperand_eq]
  apply settles_current.2
  rw [hw.current, hneg, if_neg (by simp)]
  apply settles_skipIf hw ho
  intro v hv
  rw [if_pos rfl]
  apply (achieves_itemOperand hus hparen hv.passes).bind
  intro _ x hx
  rw [placeholderCount_cons]
  exact Settles.pure ⟨rfl, (hv.passed hw (not_question_of_operator ho)).trans hx⟩

theorem achieves_steps (h : ItemSteps ts) (hm : endsOperand (us ++ more) = true)
    (hw : w.cursor.Passes (ts ++ us) more) :
    Achieves w (whileM nextOperand (return ())) fun _ =>
      Passed w (placeholderCount ts) ts us more := by
  have hturns : ∀ k, ts.length < k → Achieves w
      (repeatFor (whileTurn nextOperand (return ())) k ())
      fun _ => Passed w (placeholderCount ts) ts us more := by
    intro k hk
    -- By induction on the steps.
    induction h generalizing w k with
    | nil =>
      obtain ⟨k, rfl⟩ := Nat.exists_eq_add_of_lt hk
      refine settles_lastTurn ?_ (.refl hw)
      rw [nextOperand_eq]
      apply settles_current.2
      rw [not_negative hw.faces hm, if_neg (by simp)]
      apply settles_noSkip hw (not_operator hm)
      exact Settles.pure ⟨rfl, rfl⟩
    | @negative t ts hn hts ih =>
      obtain ⟨k, rfl⟩ := Nat.exists_eq_add_of_lt hk
      apply settles_turn (achieves_negativeStep hn hw)
      intro v hv
      apply Settles.pure
      apply (ih hv.passes _ (by simp only [List.length_cons]; omega)).mono
      intro _ x hx
      rw [placeholderCount_cons]
      exact hv.trans hx
    | @operator o vs ts ho hvs hts ih =>
      obtain ⟨k, rfl⟩ := Nat.exists_eq_add_of_lt hk
      have hparen : frontType (ts ++ us ++ more) ≠ .symbol .leftParen := by
        rw [List.append_assoc]
        exact hts.front_ne (by simp [operators]) (not_leftParen hm)
      rw [List.cons_append, List.append_assoc] at hw
      apply settles_turn (achieves_operatorStep ho hvs hparen hw)
      intro v hv
      apply Settles.pure
      apply (ih hv.passes _ (by simp only [List.length_cons, List.length_append]; omega)).mono
      intro _ x hx
      rw [← List.cons_append, placeholderCount_append]
      exact hv.trans hx
  have hmoves := hw.length_lt_moves
  rw [List.length_append] at hmoves
  exact hturns _ (by omega)

theorem SpellsAlias.endsOperand (h : SpellsAlias as) (hm : endsOperand (us ++ more) = true) :
    endsOperand (as ++ us ++ more) = true := by
  cases h with
  | none => exact hm
  | @alone t ht =>
    simp only [List.mem_cons, List.not_mem_nil, or_false] at ht
    rcases ht with ht | ht <;>
      exact endsOperand_of_type (x := t.type) rfl (by simp [ht, operators]) (by simp [ht])
        (by simp [ht]) (by simp [ht])
  | @word a _ ha =>
    exact endsOperand_keyword ha

theorem achieves_chainEnding (hs : ItemSteps steps) (has : SpellsAlias as) (hne : us ≠ [])
    (hm : endsOperand (ts ++ more) = true) (halias : frontType (ts ++ more) ∉ aliasStarts)
    (hx : w.cursor.Walk us x.cursor) (hp : x.cursor.Passes (steps ++ (as ++ ts)) more) :
    Achieves x (itemEnding w.cursor.current.start) fun item v =>
      item = .common (unquoted (trimmed (spanOf w.cursor.text (us ++ steps)))) (aliasName as) ∧
      w.cursor.Walk (us ++ steps ++ as) v.cursor ∧ v.cursor.Passes ts more ∧
      OnlyCounts x (placeholderCount steps) v := by
  unfold itemEnding
  apply (achieves_steps hs (has.endsOperand hm) hp).bind
  intro _ y hy
  have hwalk := hx.append hy.walk
  apply settles_cursor.2
  apply (achieves_alias has halias hy.passes).bind
  rintro _ v ⟨rfl, hv, hpasses, hdraft⟩
  refine Settles.pure ⟨?_, hwalk.append hv, hpasses, hy.counts.congr hdraft⟩
  have hspan := hwalk.span (List.append_ne_nil_of_left_ne_nil hne steps)
  rw [← hspan]
  rfl

theorem achieves_noEnding {start : ℕ} (hw : w.cursor.Passes ts more)
    (hm : w.cursor.current.type ∉ TokenType.literal .int :: .literal .float :: operators)
    (halias : w.cursor.current.type ∉ aliasStarts) :
    Achieves w (itemEnding start) fun _ v => v.cursor = w.cursor := by
  simp only [List.mem_cons, not_or] at hm
  have hneg : isNegativeNumber w.cursor.current = false := by simp [isNegativeNumber, hm]
  have hnone : Achieves w nextOperand fun b v => b = false ∧ v = w := by
    rw [nextOperand_eq]
    apply settles_current.2
    rw [hneg, if_neg (by simp)]
    apply settles_notAt hm.2.2
    exact Settles.pure ⟨rfl, rfl⟩
  unfold itemEnding
  apply (achieves_noWhile hnone).bind
  rintro _ _ rfl
  apply settles_cursor.2
  apply (achieves_alias .none (hw.type ▸ halias) hw).bind
  rintro _ v ⟨-, hv, -⟩
  exact Settles.pure hv.eq_of_nil

/-! ## The first operand -/

inductive FirstOperand
  | word (t : Token)
  | member (o j n : Token)
  | call (t l : Token) (inside : List Token)
  | choice (c : Token) (inside : List Token)
  /-- A call with an owner, which is read as a member of the owner. -/
  | ownedCall (o j f l : Token) (inside : List Token)

def BeginsOperand (d : Dialect) (t : Token) : Prop :=
  t.type ∉ [.symbol .star, .symbol .leftParen, TokenType.keyword .CASE, .endOfText] ∧
    t.type ∉ keywordTypes d.grammar.beforeSelectItem

namespace FirstOperand

variable {first : FirstOperand}

def tokens : FirstOperand → List Token
  | word t => [t]
  | member o j n => [o, j, n]
  | call t l inside => t :: l :: inside
  | choice c inside => c :: inside
  | ownedCall o j f l inside => o :: j :: f :: l :: inside

inductive Fits (d : Dialect) : FirstOperand → Prop
  | word {t : Token} : BeginsOperand d t → Fits d (word t)
  | member {o j n : Token} : BeginsOperand d o → j.type = .symbol .dot →
      n.type ∉ [.symbol .star, .symbol .leftParen, TokenType.keyword .CASE] →
      Fits d (member o j n)
  | call {t l : Token} {inside : List Token} : BeginsOperand d t → t.isAggregate = false →
      l.type = .symbol .leftParen → Closes 0 inside → Fits d (call t l inside)
  | choice {c : Token} {inside : List Token} : c.type = .keyword .CASE → Chooses 1 inside →
      Fits d (choice c inside)
  | ownedCall {o j f l : Token} {inside : List Token} : BeginsOperand d o → j.type = .symbol .dot →
      f.type ∉ [.symbol .star, .symbol .leftParen, TokenType.keyword .CASE] →
      l.type = .symbol .leftParen → Closes 0 inside → Fits d (ownedCall o j f l inside)

def owner? : FirstOperand → Option Token
  | member o _ _ | ownedCall o _ _ _ _ => some o
  | _ => none

/-- The number of placeholders that are counted: what stands behind the first dot is a name. -/
def count : FirstOperand → ℕ
  | member o _ _ => placeholderCount [o]
  | first => placeholderCount first.tokens

def IsRead : FirstOperand → Prop
  | ownedCall _ _ _ _ _ => False
  | _ => True

instance : DecidablePred IsRead := fun first => by
  cases first <;> unfold IsRead <;> infer_instance

theorem tokens_ne_nil : first.tokens ≠ [] := by cases first <;> simp [tokens]

/-- What a first operand begins with is no star, and it is not the call of an aggregate function. -/
theorem Fits.front (h : first.Fits d)
    (hword : ∀ t, first = .word t → frontType ts ≠ .symbol .leftParen) :
    ∃ t us, first.tokens = t :: us ∧ t.type ∉ [.symbol .star, TokenType.endOfText] ∧
      t.type ∉ keywordTypes d.grammar.beforeSelectItem ∧
      (t.isAggregate = true → frontType (us ++ ts) ≠ .symbol .leftParen) := by
  have hbegin : ∀ {t : Token}, BeginsOperand d t → t.type ∉ [.symbol .star, TokenType.endOfText] := by
    intro t ht
    have hfront := ht.1
    simp only [List.mem_cons, List.not_mem_nil, or_false, not_or] at hfront ⊢
    exact ⟨hfront.1, hfront.2.2.2⟩
  cases h with
  | @word t ht => exact ⟨t, [], rfl, hbegin ht, ht.2, fun _ => hword t rfl⟩
  | @member o j n ho hj => exact ⟨o, [j, n], rfl, hbegin ho, ho.2, fun _ => by simp [hj]⟩
  | @call t l us ht hcall => exact ⟨t, l :: us, rfl, hbegin ht, ht.2, fun h => by simp [hcall] at h⟩
  | @choice c us hc =>
    refine ⟨c, us, rfl, by simp [hc], ?_, fun h => ?_⟩
    · cases d <;> simp [hc] <;> decide
    · simp [Token.isAggregate, hc, TokenType.keyword?, Aggregate.ofKeyword?] at h
  | @ownedCall o j f l us ho hj =>
    exact ⟨o, j :: f :: l :: us, rfl, hbegin ho, ho.2, fun _ => by simp [hj]⟩

end FirstOperand

def ownerEdits (rule : ShardingRule) (owner? : Option Token) : List Edit :=
  (owner?.filter fun o => rule.containsTable (unquoted o.literals)).toList.map fun o =>
    .table o.start o.literals

def Records (w : Workspace Findings) (n : ℕ) (edits : List Edit) (v : Workspace Findings) : Prop :=
  v.draft = { w.draft with
    placeholders := w.draft.placeholders + n
    edits := w.draft.edits ++ edits }

theorem OnlyCounts.records {n : ℕ} (h : OnlyCounts w n v) : Records w n [] v := by
  rw [Records, List.append_nil]
  exact h

theorem Records.congr {n : ℕ} {edits : List Edit} (h : Records w n edits v)
    (hx : x.draft = v.draft) : Records w n edits x := hx.trans h

theorem Records.counts {n m : ℕ} {edits : List Edit} (h : Records w n edits v)
    (hx : OnlyCounts v m x) : Records w (n + m) edits x := by
  unfold Records OnlyCounts at *
  rw [hx, h, Nat.add_assoc]

theorem settles_firstToken {Q : Option SelectItem → Workspace Findings → Prop} {F : Fault → Prop}
    (ht : BeginsOperand d t) (hw : w.cursor.Passes (t :: ts) more)
    (h : ∀ x, Passed w (placeholderCount [t]) [t] ts more x → Settles x (operandRest rule t) Q F) :
    Settles w (firstOperand rule) Q F := by
  have hfront := ht.1
  simp only [List.mem_cons, List.not_mem_nil, or_false, not_or] at hfront
  unfold firstOperand
  apply settles_current.2
  apply settles_isAt.2
  rw [hw.isAt, List.cons_append, frontType_cons, beq_eq_false_iff_ne.2 hfront.2.2.1,
    if_neg (by simp), hw.current]
  exact (achieves_skipToken hw).bind fun _ => h

theorem settles_owner {Q : Option SelectItem → Workspace Findings → Prop} {F : Fault → Prop}
    (ho : BeginsOperand d o) (hj : j.type = .symbol .dot)
    (hw : w.cursor.Passes (o :: j :: ts) more)
    (h : ∀ x, w.cursor.Walk [o, j] x.cursor → x.cursor.Passes ts more →
      Records w (placeholderCount [o]) (ownerEdits rule (some o)) x →
      Settles x (memberOf (unquoted o.literals)) Q F) :
    Settles w (firstOperand rule) Q F := by
  apply settles_firstToken ho hw
  intro y hy
  unfold operandRest
  apply settles_isAt.2
  rw [hy.passes.isAt, List.cons_append, frontType_cons, hj, if_neg (by simp)]
  apply settles_skipIf hy.passes (by simp [hj])
  intro z hz
  rw [if_pos rfl]
  have hwalk : w.cursor.Walk [o, j] z.cursor := hy.walk.append (hz.walk hy.passes)
  have hcounts := hy.counts.congr hz.draft
  unfold ownedOperand
  simp only
  by_cases htable : rule.containsTable (unquoted o.literals) = true
  · rw [if_pos htable]
    apply settles_modifyDraft.2
    refine h ⟨z.cursor, _⟩ hwalk hz.passes ?_
    rw [Records, ownerEdits, Option.filter_some, if_pos htable, hcounts]
    rfl
  · rw [if_neg htable]
    refine h z hwalk hz.passes ?_
    rw [ownerEdits, Option.filter_some, if_neg htable]
    exact hcounts.records

theorem achieves_ownersStar {s : Token} (ho : BeginsOperand d o) (hj : j.type = .symbol .dot)
    (hs : s.type = .symbol .star) (hw : w.cursor.Passes (o :: j :: s :: ts) more) :
    Achieves w (firstOperand rule) fun item? v =>
      item? = some (.star (some (unquoted o.literals))) ∧ w.cursor.Walk [o, j, s] v.cursor ∧
      v.cursor.Passes ts more ∧ Records w (placeholderCount [o]) (ownerEdits rule (some o)) v := by
  apply settles_owner ho hj hw
  intro x hwalk hx hrecords
  unfold memberOf
  apply settles_skipIf hx (by simp [hs])
  intro v hv
  rw [if_pos rfl]
  exact Settles.pure ⟨rfl, hwalk.append (hv.walk hx), hv.passes, hrecords.congr hv.draft⟩

theorem achieves_firstOperand {first : FirstOperand} (h : first.Fits d) (hread : first.IsRead)
    (hword : ∀ t, first = .word t →
      frontType (ts ++ more) ∉ [TokenType.symbol .dot, .symbol .leftParen])
    (hw : w.cursor.Passes (first.tokens ++ ts) more) :
    Achieves w (firstOperand rule) fun item? v => item? = none ∧
      w.cursor.Walk first.tokens v.cursor ∧ v.cursor.Passes ts more ∧
      Records w first.count (ownerEdits rule first.owner?) v := by
  cases h with
  | @word t ht =>
    have hbehind := hword t rfl
    simp only [List.mem_cons, List.not_mem_nil, or_false, not_or] at hbehind
    have hp : w.cursor.Passes (t :: ts) more := hw
    apply settles_firstToken ht hp
    intro x hx
    unfold operandRest
    apply settles_isAt.2
    rw [hx.passes.isAt, beq_eq_false_iff_ne.2 hbehind.2, if_neg (by simp)]
    apply settles_noSkip hx.passes (by simpa using hbehind.1)
    exact Settles.pure ⟨rfl, hx.walk, hx.passes, hx.counts.records⟩
  | @member o j n ho hj hn =>
    simp only [List.mem_cons, List.not_mem_nil, or_false, not_or] at hn
    apply settles_owner ho hj hw
    intro x hwalk hx hrecords
    unfold memberOf
    apply settles_noSkip hx (by simpa using hn.1)
    rw [if_neg (by simp)]
    apply (achieves_advance hx).bind
    intro _ v hv
    exact Settles.pure ⟨rfl, hwalk.append (hv.walk hx), hv.passes, hrecords.congr hv.draft⟩
  | @call t l inside ht _ hl hus =>
    have hp : w.cursor.Passes (t :: (l :: inside ++ ts)) more := hw
    apply settles_firstToken ht hp
    intro x hx
    unfold operandRest
    apply settles_isAt.2
    rw [hx.passes.isAt, List.cons_append, List.cons_append, frontType_cons, hl, beq_self_eq_true,
      if_pos rfl]
    apply (achieves_skipParentheses hl hus hx.passes).bind
    intro _ v hv
    have hpassed := hx.trans hv
    rw [← placeholderCount_append] at hpassed
    exact Settles.pure ⟨rfl, hpassed.walk, hpassed.passes, hpassed.counts.records⟩
  | @choice c inside hc hus =>
    unfold firstOperand
    apply settles_current.2
    apply settles_isAt.2
    rw [hw.isAt]
    simp only [FirstOperand.tokens, List.cons_append, frontType_cons, hc, beq_self_eq_true, if_true]
    apply (achieves_choice hc hus hw).bind
    intro _ v hv
    exact Settles.pure ⟨rfl, hv.walk, hv.passes, hv.counts.records⟩
  | ownedCall => exact hread.elim

end SqlFront

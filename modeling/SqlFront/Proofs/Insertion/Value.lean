import SqlFront.Proofs.OperandChain

/-!
# Values of a row

A value is a balanced list of tokens without a comma outside of its parentheses. The reader of
expressions moves past whole parts of it and never beyond its end. It need not come to this end:
`a b` is read as `a`, and then the row cannot be read.
-/

set_option autoImplicit false

namespace SqlFront

open SqlFront.Parser SqlFront.Clause

variable {w v : Workspace Findings} {t : Token} {ts us more taken rest : List Token}

inductive Level : List Token → Prop
  | nil : Level []
  | token {t : Token} {ts : List Token} : t.type ≠ .symbol .leftParen →
      t.type ≠ .symbol .rightParen → t.type ≠ .symbol .comma → t.type ≠ .endOfText → Level ts →
      Level (t :: ts)
  | group {l : Token} {us ts : List Token} : l.type = .symbol .leftParen → Closes 0 us →
      Level ts → Level (l :: (us ++ ts))

theorem Level.tail (h : Level (t :: ts)) (ht : t.type ≠ .symbol .leftParen) : Level ts := by
  cases h with
  | token _ _ _ _ h => exact h
  | group hl => exact (ht hl).elim

theorem Level.closes {n : ℕ} (h : Level ts) (hus : Closes n us) : Closes n (ts ++ us) := by
  induction h with
  | nil => exact hus
  | token hleft hright _ hend _ ih => exact .token hleft hright hend ih
  | @group l vs ts hleft hvs _ ih =>
    have hinner : Closes (n + 1) (vs ++ (ts ++ us)) := by simpa using hvs.append ih
    rw [← List.append_assoc] at hinner
    exact .deeper hleft hinner

structure Complete (ts : List Token) : Prop where
  operand (us : List Token) (t : Token) : ts = us ++ [t] → t.type ∉ operators
  member (us : List Token) (d n : Token) (vs : List Token) :
    ts = us ++ d :: n :: vs → d.type = .symbol .dot → n.isWord = true

theorem Complete.suffix (us : List Token) (h : Complete (us ++ ts)) : Complete ts := by
  constructor
  · intro vs t ht
    exact h.operand (us ++ vs) t (by rw [ht, List.append_assoc])
  · intro vs d n xs ht hd
    exact h.member (us ++ vs) d n xs (by rw [ht, List.append_assoc]) hd

theorem Complete.of_last (hlast : ∀ t ∈ ts.getLast?, t.type ∉ operators)
    (hdot : ∀ t ∈ ts, t.type ≠ .symbol .dot) : Complete ts := by
  constructor
  · rintro us t rfl
    exact hlast t (by simp)
  · rintro us d n vs rfl hd
    exact (hdot d (by simp) hd).elim

/-- An operator has something behind it. -/
theorem Complete.ne_nil (h : Complete (t :: ts)) (ht : t.type ∈ operators) : ts ≠ [] := by
  rintro rfl
  exact h.operand [] t rfl ht

structure Took (w : Workspace Findings) (taken rest us more : List Token)
    (v : Workspace Findings) : Prop where
  level : Level rest
  passes : v.cursor.Passes (rest ++ us) more
  count : Collects w (placeholderCount taken) [] v

theorem Took.refl (hl : Level ts) (hw : w.cursor.Passes (ts ++ us) more) :
    Took w [] ts us more w := ⟨hl, hw, .refl w⟩

theorem Took.trans {before : List Token} {w₁ : Workspace Findings}
    (h₁ : Collects w (placeholderCount before) [] w₁) (h₂ : Took w₁ taken rest us more v) :
    Took w (before ++ taken) rest us more v := by
  refine ⟨h₂.level, h₂.passes, ?_⟩
  rw [placeholderCount_append]
  exact h₁.trans h₂.count

theorem achieves_call (t : Token) (hl : Level ts) (hus : endsOperand (us ++ more) = true)
    (hw : w.cursor.Passes (ts ++ us) more) :
    Achieves w skipParentheses fun _ v => ∃ taken rest, taken ++ rest = ts ∧
      Took w taken rest us more v ∧ (t.type ≠ .symbol .leftParen → Operand (t :: taken)) ∧
      Ends (t :: taken) rest := by
  cases hl with
  | nil =>
    have hat : w.cursor.isAt (.symbol .leftParen) = false := by
      rw [hw.isAt, beq_eq_false_iff_ne]
      exact not_leftParen hus
    apply (achieves_noParentheses hat).mono
    rintro _ v rfl
    exact ⟨[], [], rfl, .refl .nil hw, .token, fun _ => by simp⟩
  | token hleft hright hcomma hend hl =>
    have hat : w.cursor.isAt (.symbol .leftParen) = false := by
      rw [hw.isAt, beq_eq_false_iff_ne]
      exact hleft
    apply (achieves_noParentheses hat).mono
    rintro _ v rfl
    exact ⟨[], _, rfl, .refl (.token hleft hright hcomma hend hl) hw, .token, fun _ => hleft⟩
  | @group l vs ts hleft hvs hl =>
    have hw' : w.cursor.Passes (l :: vs ++ (ts ++ us)) more := by simpa using hw
    apply (achieves_skipParentheses hleft hvs hw').mono
    rintro _ v ⟨-, hp, hcount⟩
    exact ⟨l :: vs, ts, rfl, ⟨hl, hp, hcount.collects⟩, fun ht => .call ht hleft hvs, by simp [Ends]⟩

theorem achieves_skipOperand (hl : Level ts) (hne : ts ≠ []) (hus : endsOperand (us ++ more) = true)
    (hw : w.cursor.Passes (ts ++ us) more) :
    Achieves w skipOperand fun _ v => ∃ taken rest, taken ++ rest = ts ∧ Operand taken ∧
      Ends taken rest ∧ Took w taken rest us more v := by
  unfold skipOperand
  apply settles_isAt.2
  rw [hw.isAt]
  cases hl with
  | nil => exact (hne rfl).elim
  | @token t ts hleft hright hcomma hend hl =>
    -- The token is counted if it is a placeholder; then it is moved past with its parentheses.
    have hrest : ∀ {v : Workspace Findings}, v.cursor.Passes (t :: ts ++ us) more →
        Collects w (placeholderCount [t]) [] v →
        Achieves v (do
          if ← isAt (.symbol .leftParen) then
            let _ ← skipParentheses
          else
            advance
            let _ ← skipParentheses) fun _ x => ∃ taken rest, taken ++ rest = t :: ts ∧
              Operand taken ∧ Ends taken rest ∧ Took w taken rest us more x := by
      intro v hv hcount
      apply settles_isAt.2
      rw [hv.isAt, List.cons_append, List.cons_append, frontType_cons, beq_eq_false_iff_ne.2 hleft,
        if_neg (by simp)]
      apply (achieves_advance hv).bind
      intro _ v₁ h₁
      apply (achieves_call t hl hus h₁.passes).bind
      rintro _ v₂ ⟨taken, rest, rfl, h₂, hoperand, hends⟩
      exact Settles.pure ⟨t :: taken, rest, rfl, hoperand hleft, hends,
        h₂.trans (hcount.congr h₁.draft.symm)⟩
    by_cases hq : t.type = .symbol .question
    · simp only [List.cons_append, frontType_cons, hq, beq_self_eq_true, if_true]
      apply settles_countPlaceholder.2
      exact hrest hw (.placeholder hq rfl)
    · simp only [List.cons_append, frontType_cons, beq_eq_false_iff_ne.2 hq]
      exact hrest hw (.token hq rfl)
  | @group l vs ts hleft hvs hl =>
    simp only [List.cons_append, frontType_cons, hleft]
    rw [if_neg (by simp)]
    apply settles_isAt.2
    rw [hw.isAt, List.cons_append, List.cons_append, frontType_cons, hleft, beq_self_eq_true,
      if_pos rfl]
    have hw' : w.cursor.Passes (l :: vs ++ (ts ++ us)) more := by simpa using hw
    apply (achieves_skipParentheses hleft hvs hw').bind
    rintro _ v ⟨-, hp, hcount⟩
    have hends : Ends (l :: vs) ts := by cases hvs <;> simp [Ends]
    exact Settles.pure ⟨l :: vs, ts, rfl, .group hleft hvs, hends, hl, hp, hcount.collects⟩

def TookSome (w : Workspace Findings) (ts us more : List Token) (n : ℕ) (_ : Unit)
    (v : Workspace Findings) : Prop :=
  ∃ taken rest, taken ++ rest = ts ∧ rest.length = n ∧ Took w taken rest us more v ∧
    (Chained rest ↔ Chained ts)

theorem achieves_skipOperations (hl : Level ts) (hc : Complete ts) (hus : endsOperand (us ++ more) = true)
    (hw : w.cursor.Passes (ts ++ us) more) :
    Achieves w skipOperations fun _ v => ∃ taken rest, taken ++ rest = ts ∧
      Took w taken rest us more v ∧ frontType (rest ++ us ++ more) ∉ operators ∧
      (rest = [] ↔ Chained ts) := by
  have hlt := hw.length_lt_moves
  rw [List.length_append] at hlt
  have hI : TookSome w ts us more ts.length () w := ⟨[], ts, rfl, rfl, .refl hl hw, .rfl⟩
  have hround : ∀ n u v, TookSome w ts us more n u v → Achieves v (do
      if ← skipIf operators then
        skipOperand
        return .inl ()
      else return .inr ()) (Round n (TookSome w ts us more) fun (_ : Unit) v =>
        ∃ taken rest, taken ++ rest = ts ∧ Took w taken rest us more v ∧
          frontType (rest ++ us ++ more) ∉ operators ∧ (rest = [] ↔ Chained ts)) := by
    rintro n - v ⟨taken, rest, rfl, hn, hv, hchain⟩
    by_cases hop : frontType (rest ++ us ++ more) ∈ operators
    · cases rest with
      | nil => exact (not_operator hus hop).elim
      | cons t rest =>
        apply settles_skipIf hv.passes hop
        intro v₁ h₁
        have hlevel : Level rest := hv.level.tail fun h => by simp [h, operators] at hop
        rw [if_pos rfl]
        apply (achieves_skipOperand hlevel ((hc.suffix taken).ne_nil hop) hus h₁.passes).bind
        rintro _ v₂ ⟨taken', rest', rfl, hoperand, hends, h₂⟩
        have hq : t.type ≠ .symbol .question := by
          intro hq
          simp [hq, operators] at hop
        have hcount : Collects w (placeholderCount (taken ++ [t])) [] v₁ := by
          rw [placeholderCount_append]
          exact hv.count.trans (.token hq h₁.draft)
        have hlen : 0 < taken'.length := List.length_pos_iff.2 hoperand.ne_nil
        rw [chained_cons_iff hop hoperand hends] at hchain
        simp only [List.length_cons, List.length_append] at hn
        exact Settles.pure ⟨rest'.length, by omega, taken ++ [t] ++ taken', rest', by simp, rfl,
          h₂.trans hcount, hchain⟩
    · apply settles_noSkip hv.passes hop
      refine Settles.pure ⟨taken, rest, rfl, hv, hop, ?_⟩
      have hrest : frontType rest ∉ operators := by
        cases rest with
        | nil => simp [operators]
        | cons t rest => exact hop
      rw [← hchain, chained_iff_nil hrest]
  exact Settles.repeatFrom hround hI (by omega)

/-! ## Expressions -/

def shardingValue? (e : Expression) : Option Expression :=
  if e.isShardingValue then some e else none

def tokensValue? (n : ℕ) : List Token → Option Expression
  | [t] => shardingValue? (operandValue n t)
  | _ => none

def ValueRead (w : Workspace Findings) (ts us more : List Token) (e : Expression)
    (v : Workspace Findings) : Prop :=
  ∃ taken rest, taken ++ rest = ts ∧ Took w taken rest us more v ∧
    (rest = [] → shardingValue? e = tokensValue? w.draft.placeholders ts) ∧
    (rest = [] ↔ Whole ts)

theorem tokensValue?_of_length {n : ℕ} (h : 1 < ts.length) : tokensValue? n ts = none := by
  match ts with
  | [] => rfl
  | [t] => simp at h
  | _ :: _ :: _ => rfl

theorem achieves_continuation (hl : Level ts) (hc : Complete ts) (hus : endsOperand (us ++ more) = true)
    (hw : w.cursor.Passes (ts ++ us) more) :
    Achieves w skipContinuation fun b v => ∃ taken rest, taken ++ rest = ts ∧
      Took w taken rest us more v ∧ (b = false → taken = []) ∧ (b = true → taken ≠ []) ∧
      (rest = [] ↔ Continued ts) := by
  unfold skipContinuation
  apply settles_isAtAny.2
  rw [hw.isAtAny, List.contains_eq_mem]
  by_cases hop : frontType (ts ++ us ++ more) ∈ operators
  · rw [decide_eq_true hop, if_pos rfl]
    apply (achieves_skipOperations hl hc hus hw).bind
    rintro _ v ⟨taken, rest, hsplit, hv, hend, hchain⟩
    refine Settles.pure ⟨taken, rest, hsplit, hv, by simp, fun _ => ?_, ?_⟩
    · rintro rfl
      obtain rfl : rest = ts := hsplit
      exact hend hop
    · cases ts with
      | nil => exact (not_operator hus hop).elim
      | cons t ts => exact hchain.trans (@continued_iff_chained (t :: ts) hop).symm
  · rw [decide_eq_false hop, if_neg (by simp)]
    apply settles_current.2
    cases ts with
    | nil =>
      rw [not_negative hw.faces hus, if_neg (by simp)]
      exact Settles.pure ⟨[], [], rfl, .refl hl hw, fun _ => rfl, by simp,
        iff_of_true rfl (.chain .nil)⟩
    | cons t ts =>
      rw [hw.current]
      by_cases hneg : isNegativeNumber t = true
      · rw [if_pos hneg]
        apply (achieves_advance hw).bind
        intro _ v hv
        have hlevel : Level ts := hl.tail fun h => by simp [isNegativeNumber, h] at hneg
        have hq : t.type ≠ .symbol .question := by
          intro hq
          simp [isNegativeNumber, hq] at hneg
        exact Settles.pure ⟨[t], ts, rfl, ⟨hlevel, hv.passes, .token hq hv.draft⟩, by simp,
          by simp, (continued_negative_iff hneg).symm⟩
      · rw [if_neg hneg]
        exact Settles.pure ⟨[], t :: ts, rfl, .refl hl hw, fun _ => rfl, by simp,
          iff_of_false (by simp) (not_continued hop (by simpa using hneg))⟩

/-- Text is no value that can choose a shard. -/
theorem ValueRead.raw (before : List Token) {w₁ : Workspace Findings} {source : String}
    (hcount : Collects w (placeholderCount before) [] w₁) (h : Took w₁ taken rest us more v)
    (hlen : rest = [] → 1 < (before ++ taken).length)
    (hwhole : rest = [] ↔ Whole (before ++ (taken ++ rest))) :
    ValueRead w (before ++ (taken ++ rest)) us more (.raw source) v := by
  refine ⟨before ++ taken, rest, by simp, h.trans hcount, ?_, hwhole⟩
  rintro rfl
  rw [List.append_nil, tokensValue?_of_length (hlen rfl)]
  rfl

theorem achieves_operations (start : ℕ) {before : List Token} {w₁ : Workspace Findings}
    (hcount : Collects w (placeholderCount before) [] w₁) (hlen : 1 < before.length)
    (hwhole : Whole (before ++ ts) ↔ Chained ts) (hl : Level ts) (hc : Complete ts) (hus : endsOperand (us ++ more) = true)
    (hw : w₁.cursor.Passes (ts ++ us) more) :
    Achieves w₁ (do skipOperations; rawFrom start) (ValueRead w (before ++ ts) us more) := by
  apply (achieves_skipOperations hl hc hus hw).bind
  rintro _ v ⟨taken, rest, rfl, hv, -, hchain⟩
  unfold rawFrom
  apply settles_cursor.2
  refine Settles.pure (.raw before hcount hv (fun _ => ?_) (hchain.trans hwhole.symm))
  rw [List.length_append]
  omega

def behindWord (t : Token) (e : Expression) : Parser Findings Expression := do
  if ← skipSymbol .dot then
    let name := (← current).literals
    advance
    if ← skipContinuation then rawFrom t.start else return .property t.literals name
  else if ← isAt (.symbol .leftParen) then
    let _ ← skipParentheses
    skipOperations
    rawFrom t.start
  else if ← skipContinuation then rawFrom t.start
  else return e

theorem operandChain_eq : operandChain = (do
    let t ← current
    if ← isAt (.symbol .leftParen) then
      let _ ← skipParentheses
      skipOperations
      rawFrom t.start
    else
      let e ← primary
      advance
      behindWord t e) := rfl

theorem achieves_behindDot {w₁ : Workspace Findings} {n s : Token}
    (hcount : Collects w (placeholderCount [t, s]) [] w₁) (ht : t.type ≠ .symbol .leftParen)
    (hs : s.type = .symbol .dot) (hn : n.type ≠ .symbol .question) (hl : Level ts)
    (hc : Complete ts) (hus : endsOperand (us ++ more) = true)
    (hw : w₁.cursor.Passes (n :: ts ++ us) more) :
    Achieves w₁ (do
      let name := (← current).literals
      advance
      if ← skipContinuation then rawFrom t.start else return .property t.literals name)
      (ValueRead w (t :: s :: n :: ts) us more) := by
  apply settles_current.2
  apply (achieves_advance hw).bind
  intro _ v h
  have hcount' : Collects w (placeholderCount [t, s, n]) [] v := by
    have hname : Collects w₁ (placeholderCount [n]) [] v := .token hn h.draft
    have hall := hcount.trans hname
    rwa [← placeholderCount_append] at hall
  apply (achieves_continuation hl hc hus h.passes).bind
  rintro b x ⟨taken, rest, rfl, hx, -, -, hrest⟩
  have hwhole : rest = [] ↔ Whole ([t, s, n] ++ (taken ++ rest)) :=
    hrest.trans (whole_member_iff ht hs).symm
  cases b with
  | true =>
    rw [if_pos rfl]
    apply settles_cursor.2
    exact Settles.pure (ValueRead.raw [t, s, n] hcount' hx (fun _ => by simp) hwhole)
  | false =>
    rw [if_neg (by simp)]
    refine Settles.pure ⟨[t, s, n] ++ taken, rest, by simp, hx.trans hcount', fun _ => ?_, hwhole⟩
    rw [tokensValue?_of_length (by simp)]
    rfl

theorem achieves_alone {w₁ : Workspace Findings} {e : Expression}
    (hcount : Collects w (placeholderCount [t]) [] w₁)
    (he : e = operandValue w.draft.placeholders t) (ht : t.type ≠ .symbol .leftParen)
    (hl : Level ts) (hc : Complete ts) (hus : endsOperand (us ++ more) = true)
    (hdot : frontType (ts ++ us ++ more) ∉ [TokenType.symbol .dot])
    (hparen : frontType (ts ++ us ++ more) ≠ .symbol .leftParen)
    (hw : w₁.cursor.Passes (ts ++ us) more) :
    Achieves w₁ (do if ← skipContinuation then rawFrom t.start else return e)
      (ValueRead w (t :: ts) us more) := by
  apply (achieves_continuation hl hc hus hw).bind
  rintro b v ⟨taken, rest, rfl, hv, hfalse, htrue, hrest⟩
  have hfront : frontType (taken ++ rest) ≠ .symbol .leftParen ∧
      frontType (taken ++ rest) ≠ .symbol .dot := by
    cases hts : taken ++ rest with
    | nil => simp
    | cons x xs =>
      rw [hts] at hparen hdot
      exact ⟨hparen, by simpa using hdot⟩
  have hwhole : rest = [] ↔ Whole ([t] ++ (taken ++ rest)) :=
    hrest.trans (whole_word_iff ht hfront.1 hfront.2).symm
  cases b with
  | true =>
    rw [if_pos rfl]
    apply settles_cursor.2
    refine Settles.pure (ValueRead.raw [t] hcount hv (fun _ => ?_) hwhole)
    have hpos := List.length_pos_iff.2 (htrue rfl)
    simp only [List.length_append, List.length_singleton]
    omega
  | false =>
    obtain rfl := hfalse rfl
    rw [if_neg (by simp)]
    refine Settles.pure ⟨[t], rest, rfl, hv.trans hcount, ?_, hwhole⟩
    rintro rfl
    rw [he]
    rfl

theorem achieves_behindWord {w₁ : Workspace Findings} {e : Expression}
    (hcount : Collects w (placeholderCount [t]) [] w₁)
    (he : e = operandValue w.draft.placeholders t) (ht : t.type ≠ .symbol .leftParen)
    (hl : Level ts) (hc : Complete (t :: ts)) (hus : endsOperand (us ++ more) = true)
    (hw : w₁.cursor.Passes (ts ++ us) more) :
    Achieves w₁ (behindWord t e) (ValueRead w (t :: ts) us more) := by
  have hcts : Complete ts := hc.suffix [t]
  unfold behindWord
  by_cases hdot : frontType (ts ++ us ++ more) ∈ [TokenType.symbol .dot]
  · cases ts with
    | nil =>
      have hop : TokenType.symbol .dot ∈ operators := by decide
      exact (not_operator hus (List.mem_singleton.1 hdot ▸ hop)).elim
    | cons s ts =>
      have hs : s.type = .symbol .dot := by simpa using hdot
      obtain ⟨n, ts, rfl⟩ := List.exists_cons_of_ne_nil (hcts.ne_nil (by simp [hs, operators]))
      have hn : n.isWord = true := hc.member [t] s n ts rfl hs
      simp only [Token.isWord, Bool.and_eq_true, bne_iff_ne] at hn
      apply settles_skipIf hw hdot
      intro v h
      rw [if_pos rfl]
      have hpast : Collects w₁ (placeholderCount [s]) [] v := .token (by simp [hs]) h.draft
      have hboth := hcount.trans hpast
      rw [← placeholderCount_append] at hboth
      exact achieves_behindDot hboth ht hs hn.1 ((hl.tail (by simp [hs])).tail hn.2)
        (hcts.suffix [s, n]) hus h.passes
  · apply settles_noSkip hw hdot
    rw [if_neg (by simp)]
    apply settles_isAt.2
    rw [hw.isAt]
    by_cases hparen : frontType (ts ++ us ++ more) = .symbol .leftParen
    · rw [hparen, beq_self_eq_true, if_pos rfl]
      cases hl with
      | nil => exact (not_leftParen hus hparen).elim
      | token hleft => exact (hleft hparen).elim
      | @group l vs ts hleft hvs hl =>
        have hw' : w₁.cursor.Passes (l :: vs ++ (ts ++ us)) more := by simpa using hw
        apply (achieves_skipParentheses hleft hvs hw').bind
        rintro _ v ⟨-, hp, h⟩
        have hcall : Collects w (placeholderCount (t :: l :: vs)) [] v := by
          rw [placeholderCount_cons]
          exact hcount.trans h.collects
        have hcts' : Complete ts := Complete.suffix (l :: vs) (by simpa using hcts)
        exact achieves_operations _ hcall (by simp) (whole_call_iff ht hleft hvs) hl hcts' hus hp
    · rw [beq_eq_false_iff_ne.2 hparen, if_neg (by simp)]
      exact achieves_alone hcount he ht hl hcts hus hdot hparen hw

/-- A value is read up to its end, or the reading stops in front of another of its parts. -/
theorem achieves_read (hl : Level ts) (hc : Complete ts) (hne : ts ≠ [])
    (hus : endsOperand (us ++ more) = true) (hw : w.cursor.Passes (ts ++ us) more) :
    Achieves w expression (ValueRead w ts us more) := by
  apply achieves_owned
  · rintro e v edit ⟨taken, rest, hsplit, ⟨hl, hp, hcount⟩, hvalue, hwhole⟩
    exact ⟨taken, rest, hsplit, ⟨hl, hp, hcount.addEdit edit⟩, hvalue, hwhole⟩
  rw [operandChain_eq]
  apply settles_current.2
  apply settles_isAt.2
  rw [hw.isAt]
  cases hl with
  | nil => exact (hne rfl).elim
  | @token t ts hleft hright hcomma hend hl =>
    rw [List.cons_append, List.cons_append, frontType_cons, beq_eq_false_iff_ne.2 hleft,
      if_neg (by simp), hw.current]
    apply achieves_front hw
    intro v₁ h₁
    exact achieves_behindWord h₁.collects rfl hleft hl hc hus h₁.passes
  | @group l vs ts hleft hvs hl =>
    have hw' : w.cursor.Passes (l :: vs ++ (ts ++ us)) more := by simpa using hw
    rw [List.cons_append, List.cons_append, frontType_cons, hleft, beq_self_eq_true, if_pos rfl]
    apply (achieves_skipParentheses hleft hvs hw').bind
    rintro _ v ⟨-, hp, hcount⟩
    have hlen : 1 < (l :: vs).length := by
      cases hvs <;> simp
    have hcts : Complete ts := Complete.suffix (l :: vs) (by simpa using hc)
    have hrest := achieves_operations w.cursor.current.start hcount.collects hlen
      (whole_group_iff hleft hvs) hl hcts hus hp
    simpa using hrest

end SqlFront

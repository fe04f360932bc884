import SqlFront.Proofs.Insertion.RowList
import SqlFront.Proofs.Parser.Loop

/-!
# Reading between parentheses

What is read between parentheses ends inside them or right behind them: parentheses in it are passed
as a whole, and nothing else moves past the closing one but an operand. So the parenthesis that a
column list ends with is one of its own, whatever is written in the list.
-/

set_option autoImplicit false

namespace SqlFront

open SqlFront.Parser SqlFront.Clause

variable {t : Token} {ts us more : List Token} {n m : ℕ}

/-! ## Parentheses in parentheses -/

/-- The inner parentheses are closed before the outer ones. -/
theorem Closes.split (h : Closes (n + m + 1) ts) :
    ∃ us vs, us ++ vs = ts ∧ Closes n us ∧ Closes m vs := by
  generalize hk : n + m + 1 = k at h
  induction h generalizing n with
  | last => cases hk
  | @close k r ts hr h ih =>
    cases n with
    | zero =>
      obtain rfl : m = k := by omega
      exact ⟨[r], ts, rfl, .last hr, h⟩
    | succ n =>
      obtain ⟨us, vs, rfl, hus, hvs⟩ := ih (n := n) (by omega)
      exact ⟨r :: us, vs, rfl, .close hr hus, hvs⟩
  | @deeper k l ts hl _ ih =>
    obtain ⟨us, vs, rfl, hus, hvs⟩ := ih (n := n + 1) (by omega)
    exact ⟨l :: us, vs, rfl, .deeper hl hus, hvs⟩
  | @token k t ts hleft hright hend _ ih =>
    obtain ⟨us, vs, rfl, hus, hvs⟩ := ih hk
    exact ⟨t :: us, vs, rfl, .token hleft hright hend hus, hvs⟩

/-- What is left of the tokens leads up to the same parenthesis. -/
theorem Closes.suffix (h : Closes n us) (hts : ts <:+ us) (hne : ts ≠ []) : ∃ m, Closes m ts := by
  induction h with
  | @last r hr =>
    rcases List.suffix_cons_iff.1 hts with rfl | hts
    · exact ⟨0, .last hr⟩
    · exact (hne (List.suffix_nil.1 hts)).elim
  | close hr h ih =>
    rcases List.suffix_cons_iff.1 hts with rfl | hts
    · exact ⟨_, .close hr h⟩
    · exact ih hts
  | deeper hl h ih =>
    rcases List.suffix_cons_iff.1 hts with rfl | hts
    · exact ⟨_, .deeper hl h⟩
    · exact ih hts
  | token hleft hright hend h ih =>
    rcases List.suffix_cons_iff.1 hts with rfl | hts
    · exact ⟨_, .token hleft hright hend h⟩
    · exact ih hts

/-- A parenthesis that opens in them closes in them. -/
theorem Closes.group (h : Closes n (t :: ts)) (ht : t.type = .symbol .leftParen) :
    ∃ us vs, us ++ vs = ts ∧ Closes 0 us ∧ Closes n vs := by
  cases h with
  | last hr => simp [ht] at hr
  | close hr => simp [ht] at hr
  | deeper _ h =>
    have hinner : Closes (0 + n + 1) ts := by rwa [Nat.zero_add]
    exact hinner.split
  | token hleft => exact (hleft ht).elim

/-- Only a parenthesis is the last one. -/
theorem Closes.ne_nil (h : Closes n (t :: ts)) (ht : t.type ≠ .symbol .rightParen) : ts ≠ [] := by
  rintro rfl
  cases h with
  | last hr => exact ht hr
  | close _ h => cases h
  | deeper _ h => cases h
  | token _ _ _ h => cases h

/-! ## Reading -/

def Left (us more : List Token) (n : ℕ) (c : Cursor) : Prop :=
  ∃ ts, ts <:+ us ∧ ts.length = n ∧ c.Passes ts more

def LeftAtMost {σ : Type} (us more : List Token) (n : ℕ) (w : Workspace σ) : Prop :=
  ∃ m ≤ n, Left us more m w.cursor

section

variable {σ : Type} {w : Workspace σ} {c : Cursor}

theorem Left.atMost (h : Left us more m w.cursor) (hm : m ≤ n) : LeftAtMost us more n w :=
  ⟨m, hm, h⟩

theorem LeftAtMost.mono (h : LeftAtMost us more m w) (hm : m ≤ n) : LeftAtMost us more n w := by
  obtain ⟨k, hk, h⟩ := h
  exact ⟨k, hk.trans hm, h⟩

theorem Left.front (h : Left us more (n + 1) c) (hus : Closes 0 us) :
    ∃ t ts, ts.length = n ∧ c.Passes (t :: ts) more ∧ t :: ts <:+ us ∧ ∃ k, Closes k (t :: ts) := by
  obtain ⟨ts, hts, hlen, hc⟩ := h
  obtain ⟨t, ts, rfl⟩ := List.exists_cons_of_length_eq_add_one hlen
  exact ⟨t, ts, by simpa using hlen, hc, hts, hus.suffix hts (by simp)⟩

/-- Only a token of the parentheses has a type that those behind them have not. -/
theorem Left.pos (h : Left us more n c) (hc : c.current.type ≠ frontType more) : 0 < n := by
  obtain ⟨ts, -, rfl, hp⟩ := h
  cases ts with
  | nil => exact (hc hp.type).elim
  | cons => simp

theorem achieves_step (hus : Closes 0 us) (hw : Left us more (n + 1) w.cursor) :
    Achieves w Parser.advance fun _ v => Left us more n v.cursor ∧ v.draft = w.draft := by
  obtain ⟨t, ts, rfl, hc, hts, -⟩ := hw.front hus
  apply (achieves_advance hc).mono
  intro _ v hv
  exact ⟨⟨ts, (List.suffix_cons t ts).trans hts, rfl, hv.passes⟩, hv.draft⟩

theorem achieves_skipInside {xs : List TokenType} (hus : Closes 0 us)
    (hmore : frontType more ∉ xs) (hright : .symbol .rightParen ∉ xs)
    (hw : Left us more n w.cursor) :
    Achieves w (skipIf xs) fun b v => v.draft = w.draft ∧
      ((b = true ∧ ∃ m, 0 < m ∧ m < n ∧ Left us more m v.cursor) ∨
        (b = false ∧ v = w ∧ w.cursor.current.type ∉ xs)) := by
  by_cases hat : w.cursor.current.type ∈ xs
  · have hpos : 0 < n := hw.pos fun h => hmore (h ▸ hat)
    obtain ⟨n, rfl⟩ := Nat.exists_eq_add_one.2 hpos
    obtain ⟨t, ts, rfl, hc, hts, k, hk⟩ := hw.front hus
    rw [hc.current] at hat
    apply (achieves_skip hc hat).mono
    rintro b v ⟨rfl, hv⟩
    refine ⟨hv.draft, Or.inl ⟨rfl, ts.length, ?_, by omega, ts, ?_, rfl, hv.passes⟩⟩
    · exact List.length_pos_iff.2 (hk.ne_nil fun h => hright (h ▸ hat))
    · exact (List.suffix_cons t ts).trans hts
  · apply (achieves_noSkip hat).mono
    rintro b v ⟨rfl, rfl⟩
    exact ⟨rfl, Or.inr ⟨rfl, rfl, hat⟩⟩

end

section

variable {w : Workspace Findings}

theorem achieves_passParentheses (hus : Closes 0 us) (hmore : EndsRows more)
    (hw : Left us more n w.cursor) :
    Achieves w skipParentheses fun _ v => LeftAtMost us more n v ∧
      (w.cursor.isAt (.symbol .leftParen) = true → ∃ m < n, Left us more m v.cursor) := by
  by_cases hat : w.cursor.isAt (.symbol .leftParen) = true
  · have hfront := Cursor.isAt_iff.1 hat
    have hpos : 0 < n := hw.pos fun h => not_leftParen hmore.operand (h ▸ hfront)
    obtain ⟨n, rfl⟩ := Nat.exists_eq_add_one.2 hpos
    obtain ⟨t, ts, rfl, hc, hts, k, hk⟩ := hw.front hus
    rw [hc.current] at hfront
    obtain ⟨vs, ts, rfl, hvs, -⟩ := hk.group hfront
    have hp : w.cursor.Passes (t :: vs ++ ts) more := hc
    apply (achieves_skipParentheses hfront hvs hp).mono
    rintro _ v ⟨-, hv, -⟩
    have hleft : Left us more ts.length v.cursor :=
      ⟨ts, (List.suffix_append (t :: vs) ts).trans hts, rfl, hv⟩
    have hlt : ts.length < (vs ++ ts).length + 1 := by
      rw [List.length_append]
      omega
    exact ⟨hleft.atMost hlt.le, fun _ => ⟨_, hlt, hleft⟩⟩
  · apply (achieves_noParentheses (by simpa using hat)).mono
    rintro _ v rfl
    exact ⟨hw.atMost le_rfl, fun h => (hat h).elim⟩

theorem achieves_passOperand (hus : Closes 0 us) (hmore : EndsRows more)
    (hw : Left us more (n + 1) w.cursor) :
    Achieves w skipOperand fun _ v => LeftAtMost us more n v := by
  have hrest : ∀ v : Workspace Findings, Left us more (n + 1) v.cursor → Achieves v (do
      if ← isAt (.symbol .leftParen) then
        let _ ← skipParentheses
      else
        advance
        let _ ← skipParentheses) fun _ x => LeftAtMost us more n x := by
    intro v hv
    apply settles_isAt.2
    cases hat : v.cursor.isAt (.symbol .leftParen) with
    | true =>
      rw [if_pos rfl]
      apply (achieves_passParentheses hus hmore hv).bind
      rintro _ x ⟨-, hx⟩
      obtain ⟨m, hm, hx⟩ := hx hat
      exact Settles.pure (hx.atMost (by omega))
    | false =>
      rw [if_neg (by simp)]
      apply (achieves_step hus hv).bind
      rintro _ x ⟨hx, -⟩
      apply (achieves_passParentheses hus hmore hx).bind
      rintro _ y ⟨hy, -⟩
      exact Settles.pure hy
  unfold skipOperand
  apply settles_isAt.2
  split
  · apply settles_countPlaceholder.2
    exact hrest _ hw
  · exact hrest _ hw

theorem achieves_passOperations (hus : Closes 0 us) (hmore : EndsRows more)
    (hw : Left us more n w.cursor) :
    Achieves w skipOperations fun _ v => LeftAtMost us more n v := by
  have hround : ∀ (k : ℕ) (_ : Unit) (v : Workspace Findings),
      k ≤ n ∧ Left us more k v.cursor → Achieves v (do
      if ← skipIf operators then
        skipOperand
        return .inl ()
      else return .inr ()) (Round k (fun k (_ : Unit) v => k ≤ n ∧ Left us more k v.cursor)
        fun (_ : Unit) v => LeftAtMost us more n v) := by
    rintro k - v ⟨hk, hv⟩
    apply (achieves_skipInside hus (not_operator hmore.operand) (by decide) hv).bind
    rintro b x ⟨-, ⟨rfl, m, hpos, hm, hx⟩ | ⟨rfl, rfl, -⟩⟩
    · obtain ⟨m, rfl⟩ := Nat.exists_eq_add_one.2 hpos
      rw [if_pos rfl]
      apply (achieves_passOperand hus hmore hx).bind
      rintro _ y ⟨i, hi, hy⟩
      exact Settles.pure ⟨i, by omega, by omega, hy⟩
    · exact Settles.pure (hv.atMost hk)
  have hlt : n < w.cursor.moves := by
    obtain ⟨ts, -, rfl, hp⟩ := hw
    exact hp.length_lt_moves
  exact Settles.repeatFrom hround ⟨le_rfl, hw⟩ hlt

theorem achieves_passContinuation (hus : Closes 0 us) (hmore : EndsRows more)
    (hw : Left us more n w.cursor) :
    Achieves w skipContinuation fun _ v => LeftAtMost us more n v := by
  unfold skipContinuation
  apply settles_isAtAny.2
  split
  · apply (achieves_passOperations hus hmore hw).bind
    intro _ v hv
    exact Settles.pure hv
  · apply settles_current.2
    split
    · next hneg =>
      cases n with
      | zero =>
        obtain ⟨ts, -, hlen, hc⟩ := hw
        obtain rfl := List.length_eq_zero_iff.1 hlen
        rw [not_negative hc.faces hmore.operand] at hneg
        cases hneg
      | succ n =>
        apply (achieves_step hus hw).bind
        rintro _ v ⟨hv, -⟩
        exact Settles.pure (hv.atMost n.le_succ)
    · exact Settles.pure (hw.atMost le_rfl)

theorem achieves_rawFrom {place : ℕ} {P : Workspace Findings → Prop} (hw : P w) :
    Achieves w (rawFrom place) fun _ v => P v := by
  unfold rawFrom
  apply settles_cursor.2
  exact Settles.pure hw

theorem achieves_passBehindWord {e : Expression} (hus : Closes 0 us) (hmore : EndsRows more)
    (hw : Left us more n w.cursor) :
    Achieves w (behindWord t e) fun _ v => LeftAtMost us more n v := by
  have hraw : ∀ {m : ℕ} {v : Workspace Findings}, LeftAtMost us more m v → m ≤ n →
      Achieves v (rawFrom t.start) fun _ x => LeftAtMost us more n x :=
    fun hv hm => achieves_rawFrom (hv.mono hm)
  have hcontinued : ∀ {e : Expression} {m : ℕ} {v : Workspace Findings}, m ≤ n →
      Left us more m v.cursor → Achieves v (do
        if ← skipContinuation then rawFrom t.start else return e) fun _ x =>
          LeftAtMost us more n x := by
    intro e m v hm hv
    apply (achieves_passContinuation hus hmore hv).bind
    intro b x hx
    cases b with
    | true => exact hraw hx hm
    | false => exact Settles.pure (hx.mono hm)
  unfold behindWord
  apply (achieves_skipInside hus ?_ (by decide) hw).bind
  · rintro b v ⟨-, ⟨rfl, m, hpos, hm, hv⟩ | ⟨rfl, rfl, -⟩⟩
    · obtain ⟨m, rfl⟩ := Nat.exists_eq_add_one.2 hpos
      rw [if_pos rfl]
      apply settles_current.2
      apply (achieves_step hus hv).bind
      rintro _ x ⟨hx, -⟩
      exact hcontinued (by omega) hx
    · rw [if_neg (by simp)]
      apply settles_isAt.2
      split
      · apply (achieves_passParentheses hus hmore hw).bind
        rintro _ x ⟨⟨m, hm, hx⟩, -⟩
        apply (achieves_passOperations hus hmore hx).bind
        intro _ y hy
        exact hraw hy hm
      · exact hcontinued le_rfl hw
  · intro hdot
    apply not_operator hmore.operand
    rw [List.mem_singleton.1 hdot]
    decide

theorem achieves_passChain (hus : Closes 0 us) (hmore : EndsRows more)
    (hw : Left us more (n + 1) w.cursor) :
    Achieves w operandChain fun _ v => LeftAtMost us more n v := by
  rw [operandChain_eq]
  apply settles_current.2
  apply settles_isAt.2
  cases hat : w.cursor.isAt (.symbol .leftParen) with
  | true =>
    rw [if_pos rfl]
    apply (achieves_passParentheses hus hmore hw).bind
    rintro _ v ⟨-, hv⟩
    obtain ⟨m, hm, hv⟩ := hv hat
    apply (achieves_passOperations hus hmore hv).bind
    intro _ x hx
    exact achieves_rawFrom (hx.mono (by omega))
  | false =>
    rw [if_neg (by simp)]
    obtain ⟨t, ts, rfl, hc, hts, -⟩ := hw.front hus
    apply (achieves_primary hc).bind
    rintro e v ⟨-, hv, -⟩
    apply (achieves_step hus ⟨t :: ts, hts, rfl, hv ▸ hc⟩).bind
    rintro _ x ⟨hx, -⟩
    exact achieves_passBehindWord hus hmore hx

end

/-! ## The column list -/

section

variable {rule : ShardingRule} {key? : Option String} {table : String}
  {w : Workspace InsertStatement}

theorem settles_enclosedColumn (hus : Closes 0 us) (hmore : EndsRows more)
    (hw : Left us more (n + 1) w.cursor) :
    Settles w (listedItem key? table) (fun _ v => LeftAtMost us more n v) fun _ => True := by
  have hread : Achieves w (onFindings expression) fun _ v => LeftAtMost us more n v := by
    apply settles_onFindings.2
    exact achieves_owned (fun _ _ _ h => h)
      (achieves_passChain (w := ⟨w.cursor, w.draft.findings⟩) hus hmore hw)
  unfold listedItem columnName
  simp only [bind_assoc]
  apply settles_current.2
  apply hread.bind
  intro e v hv
  cases e.columnName? with
  | some name => exact hv
  | none => exact trivial

theorem settles_enclosedColumns (hus : Closes 0 us) (hmore : EndsRows more)
    (hw : w.cursor.Passes us more) :
    Settles w (writtenColumns rule table)
      (fun _ v => ∃ r ∈ us, r.type = .symbol .rightParen ∧ v.draft.columnListStop = r.start)
      fun _ => True := by
  have hround : ∀ (k : ℕ) (before : List Unit) (v : Workspace InsertStatement),
      0 < k ∧ Left us more k v.cursor → Settles v (do
        let x ← listedItem (rule.generatedKey? table) table
        if ← skipIf [.symbol .comma] then return .inl (before ++ [x])
        else return .inr (before ++ [x]))
        (Round k (fun k (_ : List Unit) v => 0 < k ∧ Left us more k v.cursor)
          fun (_ : List Unit) v => ∃ m, Left us more m v.cursor) fun _ => True := by
    rintro k before v ⟨hpos, hv⟩
    obtain ⟨k, rfl⟩ := Nat.exists_eq_add_one.2 hpos
    apply (settles_enclosedColumn hus hmore hv).bind
    rintro x v₁ ⟨m, hm, hv₁⟩
    have hcomma : frontType more ∉ [TokenType.symbol .comma] := by simpa using hmore.comma
    apply (achieves_skipInside hus hcomma (by decide) hv₁).bind
    rintro b v₂ ⟨-, ⟨rfl, i, hpos, hi, hv₂⟩ | ⟨rfl, rfl, -⟩⟩
    · exact Settles.pure ⟨i, by omega, hpos, hv₂⟩
    · exact Settles.pure ⟨m, hv₁⟩
  have hpos : 0 < us.length := by cases hus <;> simp
  have hread : Settles w (discard <| commaSeparated (listedItem (rule.generatedKey? table) table))
      (fun _ v => ∃ m, Left us more m v.cursor) fun _ => True :=
    Settles.discard (Settles.repeatFrom hround ⟨hpos, us, List.suffix_rfl, rfl, hw⟩
      hw.length_lt_moves)
  rw [writtenColumns_eq]
  apply hread.bind
  rintro _ v ⟨m, hv⟩
  apply settles_current.2
  apply settles_modifyDraft.2
  apply settles_of_run _ fun _ => trivial
  intro _ x hx
  obtain ⟨hat, c, -, rfl⟩ := expect_ok.1 hx
  rw [Cursor.isAt_iff] at hat
  have hlast : 0 < m := hv.pos fun h => hmore.rightParen (h ▸ hat)
  obtain ⟨m, rfl⟩ := Nat.exists_eq_add_one.2 hlast
  obtain ⟨r, ts, -, hc, hts, -⟩ := hv.front hus
  refine ⟨r, hts.subset List.mem_cons_self, ?_, congrArg Token.start hc.current⟩
  rw [← hc.current]
  exact hat

end

end SqlFront

import SqlFront.Proofs.Cursor.Order
import SqlFront.Proofs.Placeholder.Count
import SqlFront.Proofs.RowLimit.Front
import SqlFront.Proofs.Selection.Tail

/-!
# Row limits as written

A row count and an offset can be written with `LIMIT` first, with `OFFSET` first, or behind `LIMIT`
with a comma. Each part is read with the value that is written for it, and only a literal value is
a place to edit.
-/

set_option autoImplicit false

namespace SqlFront

open SqlFront.Parser SqlFront.Clause SqlFront.Reading

variable {d : Dialect} {rule : ShardingRule} {catalog : Catalog} {sql : String} {comma : Bool}
  {part : LimitPart} {t o r : Token} {ts more : List Token} {w : Workspace Findings}

inductive Amount
  | all
  | placeholder
  | number (value : Int64)
deriving DecidableEq

namespace Amount

variable {a m n : Amount}

def IsWritten (t : Token) : Amount → Prop
  | .all => t.type = .keyword .ALL
  | .placeholder => t.type = .symbol .question
  | .number value => t.type = .literal .int ∧ Number.int64? 10 t.literals.toList = some value

def value? (before : ℕ) : Amount → Option LimitValue
  | .all => none
  | .placeholder => some (.placeholder before)
  | .number value => some (.literal value)

def edits (part : LimitPart) (t : Token) : Amount → List Edit
  | .number value => [part.edit t.start value]
  | _ => []

structure Taken (part : LimitPart) (t : Token) (a : Amount) (w : Workspace Findings)
    (ts more : List Token) (value? : Option LimitValue) (v : Workspace Findings) : Prop where
  value : value? = a.value? w.draft.placeholders
  passes : v.cursor.Passes ts more
  edits : v.draft.edits = w.draft.edits ++ a.edits part t
  placeholders : v.draft.placeholders = w.draft.placeholders + placeholderCount [t]

theorem achieves_literalValue {value : Int64} (ht : t.type = .literal .int)
    (hvalue : Number.int64? 10 t.literals.toList = some value)
    (hw : w.cursor.Passes (t :: ts) more) : Achieves w (literalValue part) fun x v =>
      x = .literal value ∧ v.cursor.Passes ts more ∧
        v.draft = w.draft.addEdit (part.edit t.start value) := by
  unfold literalValue
  apply settles_isAt.2
  rw [Cursor.isAt_iff.2 (hw.current ▸ ht), if_pos rfl]
  apply settles_current.2
  rw [hw.current, hvalue]
  apply settles_modifyDraft.2
  have hw' : (Workspace.mk w.cursor (w.draft.addEdit (part.edit t.start value))).cursor.Passes
      (t :: ts) more := hw
  apply (achieves_advance hw').bind
  intro _ v hv
  exact Settles.pure ⟨rfl, hv.passes, hv.draft⟩

theorem achieves_limitValue (ha : a.IsWritten t) (hw : w.cursor.Passes (t :: ts) more) :
    Achieves w (limitValue part) (a.Taken part t w ts more) := by
  unfold limitValue
  have hcurrent : w.cursor.current = t := hw.current
  cases a with
  | all =>
    have ht : t.type = .keyword .ALL := ha
    apply settles_skipIf hw (by simp [ht])
    intro v hv
    exact Settles.pure ⟨rfl, hv.passes, by simp [hv.draft, edits],
      by simp [hv.draft, placeholderCount, ht]⟩
  | placeholder =>
    have ht : t.type = .symbol .question := ha
    apply settles_notAt (by simp [hcurrent, ht])
    apply settles_isAt.2
    rw [Cursor.isAt_iff.2 (hcurrent ▸ ht), if_pos rfl]
    apply (settles_bind_ok (countPlaceholder_ok.2 ⟨rfl, rfl⟩)).2
    have hw' : (Workspace.mk w.cursor w.draft.countPlaceholder).cursor.Passes (t :: ts) more := hw
    apply (achieves_advance hw').bind
    intro _ v hv
    exact Settles.pure ⟨rfl, hv.passes, by simp [hv.draft, edits, Findings.countPlaceholder],
      by simp [hv.draft, placeholderCount, ht, Findings.countPlaceholder]⟩
  | number value =>
    obtain ⟨ht, hvalue⟩ := ha
    have hat : w.cursor.isAt (.symbol .question) = false := by
      simp [Cursor.isAt, hcurrent, ht]
    apply settles_notAt (by simp [hcurrent, ht])
    apply settles_isAt.2
    rw [hat, if_neg (by simp)]
    apply (achieves_literalValue ht hvalue hw).bind
    rintro _ v ⟨rfl, hv, hdraft⟩
    exact Settles.pure ⟨rfl, hv, by simp [hdraft, edits, Findings.addEdit],
      by simp [hdraft, placeholderCount, ht, Findings.addEdit]⟩

end Amount

/-! ## Spellings -/

inductive WritesLimit (comma : Bool) (o r : Token) : List Token → Prop
  | rowCountFirst {l f : Token} : l.type = .keyword .LIMIT → f.type = .keyword .OFFSET →
      WritesLimit comma o r [l, r, f, o]
  | offsetFirst {f l : Token} : f.type = .keyword .OFFSET → l.type = .keyword .LIMIT →
      WritesLimit comma o r [f, o, l, r]
  | comma {l c : Token} : comma = true → l.type = .keyword .LIMIT → c.type = .symbol .comma →
      WritesLimit comma o r [l, o, c, r]

def PlacedBehind (ts : List Token) (t : Token) (n : ℕ) : Prop :=
  ∃ before behind, ts = before ++ t :: behind ∧ n = placeholderCount before

structure LimitTaken (m n : Amount) (o r : Token) (ts : List Token) (w : Workspace Findings)
    (more : List Token) (limit : RowLimit) (v : Workspace Findings) : Prop where
  passes : v.cursor.Passes [] more
  parts : ∃ i j, PlacedBehind ts o i ∧ PlacedBehind ts r j ∧ limit =
    ⟨m.value? (w.draft.placeholders + i), n.value? (w.draft.placeholders + j)⟩
  edits : ∃ es, v.draft.edits = w.draft.edits ++ es ∧
    es.Perm (m.edits .offset o ++ n.edits .rowCount r)

variable {m n : Amount}

theorem achieves_limitPart {word : Keyword} {a : Amount} {l : Token} (hl : l.type = .keyword word)
    (ha : a.IsWritten t) (hw : w.cursor.Passes (l :: t :: ts) more) :
    Achieves w (limitPart word part) (a.Taken part t w ts more) := by
  unfold limitPart
  apply settles_skipIf hw (by simp [hl])
  intro v hv
  have htaken : Achieves v (limitValue part) (a.Taken part t v ts more) :=
    Amount.achieves_limitValue ha hv.passes
  rw [if_pos rfl]
  exact htaken.mono fun x u hu =>
    ⟨hv.draft ▸ hu.value, hu.passes, hv.draft ▸ hu.edits, hv.draft ▸ hu.placeholders⟩

theorem settles_limitValues {Q : RowLimit → Workspace Findings → Prop} {F : Fault → Prop}
    (hw : w.cursor.Passes (t :: ts) more)
    (h : Settles w (if comma && frontType (ts ++ more) == .symbol .comma then offsetAndRowCount
      else do
        let rowCount? ← limitValue .rowCount
        let offset? ← limitPart .OFFSET .offset
        return ⟨offset?, rowCount?⟩) Q F) :
    Settles w (limitValues comma) Q F := by
  unfold limitValues
  cases comma with
  | true =>
    apply (achieves_isAhead hw).bind
    rintro _ _ ⟨rfl, rfl⟩
    simpa using h
  | false => simpa using h

theorem achieves_limitAndOffset (hts : WritesLimit comma o r ts) (ho : m.IsWritten o)
    (hr : n.IsWritten r) (hw : w.cursor.Passes ts more) :
    Achieves w (limitAndOffset comma) (LimitTaken m n o r ts w more) := by
  unfold limitAndOffset
  cases hts with
  | @rowCountFirst l f hl hf =>
    apply settles_skipIf hw (by simp [hl])
    intro w₁ h₁
    rw [if_pos rfl]
    apply settles_limitValues h₁.passes
    rw [if_neg (by simp [hf])]
    apply (Amount.achieves_limitValue hr h₁.passes).bind
    intro x w₂ h₂
    apply (achieves_limitPart hf ho h₂.passes).bind
    intro y w₃ h₃
    refine Settles.pure ⟨h₃.passes, ⟨placeholderCount [r], 0, ⟨[l, r, f], [], rfl, ?_⟩,
      ⟨[l], [f, o], rfl, ?_⟩, ?_⟩, n.edits .rowCount r ++ m.edits .offset o, ?_,
      List.perm_append_comm⟩
    · simp [placeholderCount, List.countP_cons, hl, hf]
    · simp [placeholderCount, hl]
    · rw [h₃.value, h₂.value, h₂.placeholders, h₁.draft, Nat.add_zero]
    · rw [h₃.edits, h₂.edits, h₁.draft, List.append_assoc]
  | @offsetFirst f l hf hl =>
    apply settles_notAt (by simp [hw.current, hf])
    rw [if_neg (by simp)]
    apply settles_skipIf hw (by simp [hf])
    intro w₁ h₁
    rw [if_pos rfl]
    apply (Amount.achieves_limitValue ho h₁.passes).bind
    intro x w₂ h₂
    apply (achieves_limitPart hl hr h₂.passes).bind
    intro y w₃ h₃
    refine Settles.pure ⟨h₃.passes, ⟨0, placeholderCount [o], ⟨[f], [l, r], rfl, ?_⟩,
      ⟨[f, o, l], [], rfl, ?_⟩, ?_⟩, m.edits .offset o ++ n.edits .rowCount r, ?_, List.Perm.refl _⟩
    · simp [placeholderCount, hf]
    · simp [placeholderCount, List.countP_cons, hl, hf]
    · rw [h₃.value, h₂.value, h₂.placeholders, h₁.draft, Nat.add_zero]
    · rw [h₃.edits, h₂.edits, h₁.draft, List.append_assoc]
  | @comma l c hcomma hl hc =>
    apply settles_skipIf hw (by simp [hl])
    intro w₁ h₁
    rw [if_pos rfl]
    apply settles_limitValues h₁.passes
    rw [if_pos (by simp [hc, hcomma])]
    unfold offsetAndRowCount
    apply (Amount.achieves_limitValue ho h₁.passes).bind
    intro x w₂ h₂
    apply (achieves_expect h₂.passes hc).bind
    intro _ w₃ h₃
    apply (Amount.achieves_limitValue hr h₃.passes).bind
    intro y w₄ h₄
    refine Settles.pure ⟨h₄.passes, ⟨0, placeholderCount [o], ⟨[l], [c, r], rfl, ?_⟩,
      ⟨[l, o, c], [], rfl, ?_⟩, ?_⟩, m.edits .offset o ++ n.edits .rowCount r, ?_, List.Perm.refl _⟩
    · simp [placeholderCount, hl]
    · simp [placeholderCount, List.countP_cons, hl, hc]
    · rw [h₄.value, h₃.draft, h₂.value, h₂.placeholders, h₁.draft, Nat.add_zero]
    · rw [h₄.edits, h₃.draft, h₂.edits, h₁.draft, List.append_assoc]

/-! ## The clause -/

def limitOf (offset? rowCount? : Option LimitValue) : Option RowLimit :=
  if (RowLimit.mk offset? rowCount?).isEmpty then none else some ⟨offset?, rowCount?⟩

structure Limited (m n : Amount) (o r : Token) (ts : List Token) (w : Workspace Query)
    (more : List Token) (v : Workspace Query) : Prop where
  passes : v.cursor.Passes [] more
  limit : ∃ i j, PlacedBehind ts o i ∧ PlacedBehind ts r j ∧ v.draft.limit? =
    limitOf (m.value? (w.draft.findings.placeholders + i))
      (n.value? (w.draft.findings.placeholders + j))
  edits : ∃ es, v.draft.findings.edits = w.draft.findings.edits ++ es ∧
    es.Perm (m.edits .offset o ++ n.edits .rowCount r)

theorem LimitTaken.limited {limit : RowLimit} {w v : Workspace Query} {u : Workspace Findings}
    (h : LimitTaken m n o r ts w.found more limit u) (hcursor : v.cursor = u.cursor)
    (hfindings : v.draft.findings = u.draft)
    (hlimit : v.draft.limit? = if limit.isEmpty then none else some limit) :
    Limited m n o r ts w more v := by
  obtain ⟨i, j, hi, hj, rfl⟩ := h.parts
  obtain ⟨es, hes, hperm⟩ := h.edits
  exact ⟨hcursor ▸ h.passes, ⟨i, j, hi, hj, hlimit⟩, es, hfindings ▸ hes, hperm⟩

theorem achieves_limitClause {w : Workspace Query}
    (hd : w.cursor.dialect.grammar.rowLimit = .limit comma) (hlimit : w.draft.limit? = none)
    (hts : WritesLimit comma o r ts) (ho : m.IsWritten o) (hr : n.IsWritten r)
    (hw : w.cursor.Passes ts more) :
    Achieves w limitClause fun _ v => Limited m n o r ts w more v := by
  unfold limitClause
  apply settles_grammar.2
  rw [hd]
  have hread : Achieves w (onFindings (limitAndOffset comma)) fun limit v =>
      ∃ u, LimitTaken m n o r ts w.found more limit u ∧
        v = ⟨u.cursor, setFindings w.draft u.draft⟩ := by
    apply settles_onFindings.2
    have hfound : w.found.cursor.Passes ts more := hw
    exact (achieves_limitAndOffset hts ho hr hfound).mono fun limit u hu => ⟨u, hu, rfl⟩
  apply hread.bind
  rintro limit _ ⟨u, hu, rfl⟩
  cases hempty : limit.isEmpty with
  | true =>
    refine Settles.pure (hu.limited rfl rfl ?_)
    rw [hempty]
    exact hlimit
  | false =>
    rw [Bool.not_false, if_pos rfl]
    apply (settles_of_ok (a := ()) (modifyDraft_ok.2 rfl)).2
    apply hu.limited rfl rfl
    rw [hempty]
    rfl

/-! ## The query -/

/-- A query without sub-queries, read from the cursor on up to the tokens of its row limit. -/
structure FrontRead (rule : ShardingRule) (c : Cursor) (ts more : List Token)
    (w : Workspace Query) : Prop where
  word : c.isAt (.keyword .SELECT) = true
  run : ∃ k, c.moves = k + 1 ∧ queryFront rule k ⟨c, {}⟩ = .ok [] w
  passes : w.cursor.Passes ts more

namespace FrontRead

variable {c : Cursor} {w : Workspace Query}

theorem keepsLimit (h : FrontRead rule c ts more w) : KeepsLimit ⟨c, {}⟩ w := by
  obtain ⟨k, -, hrun⟩ := h.run
  exact queryFront_keepsLimit (not_question_of_keyword h.word) hrun

theorem progress {start : Cursor} (h : FrontRead rule c ts more w) (hc : start.advance = .ok c) :
    QueryProgress (Names (Stands rule start)) True True ⟨c, {}⟩ w := by
  obtain ⟨k, -, hrun⟩ := h.run
  exact (queryFront_progress trivial trivial Stands.queryPlaces (.select hc h.word)
    (not_question_of_keyword h.word) hrun).1

/-- Where no placeholder stands for a name, the count is that of the placeholders in front. -/
theorem counted {start : Cursor} (h : FrontRead rule c ts more w) (hc : start.advance = .ok c)
    (hstart : start.isAt (.symbol .question) = false) (hp : PlainNames rule start) :
    Counted start w.cursor w.draft.findings.placeholders :=
  (Counted.refl.token hstart hc).moves hp (h.progress hc).found.moves

theorem achieves_queryLevel (h : FrontRead rule c ts more w)
    (hd : c.dialect.grammar.rowLimit = .limit comma) (hts : WritesLimit comma o r ts)
    (ho : m.IsWritten o) (hr : n.IsWritten r)
    (hmore : frontType more ∉ keywordTypes c.dialect.grammar.setOperations) :
    Achieves ⟨c, {}⟩ (queryLevel rule c.moves) fun inner v =>
      inner = [] ∧ Limited m n o r ts w more v := by
  obtain ⟨k, hk, hrun⟩ := h.run
  have hdialect : w.cursor.dialect = c.dialect := h.keepsLimit.dialect
  have hstyle : c.dialect.grammar.rowLimit ≠ .top := by
    rw [hd]
    exact fun h => by cases h
  have hlimit : w.draft.limit? = none := (h.keepsLimit.kept hstyle).1
  rw [hk, queryLevel_front]
  apply (settles_bind_ok hrun).2
  have hclause := achieves_limitClause (hdialect ▸ hd) hlimit hts ho hr h.passes
  apply hclause.withRun.bind
  rintro _ v ⟨hv, hvrun⟩
  have hprogress : QueryProgress (fun _ => True) True True w v := limitClause_progress hvrun
  have hdialect' : v.cursor.dialect = c.dialect := hprogress.found.reaches.dialect.trans hdialect
  have hat : v.cursor.isAtAny (keywordTypes v.cursor.dialect.grammar.setOperations) = false := by
    rw [hv.passes.isAtAny, List.contains_eq_mem, hdialect']
    exact decide_eq_false hmore
  have hset : (setOperationClause : Parser Query Unit) v = .ok () v := refuseIf_ok.2 ⟨hat, rfl⟩
  apply (settles_bind_ok hset).2
  exact Settles.pure ⟨rfl, hv⟩

end FrontRead

def frontRest? (d : Dialect) (rule : ShardingRule) (sql : String) : Option (List Token) :=
  match (Cursor.ofText d sql).advance with
  | .error _ => none
  | .ok c =>
    match queryFront rule (c.moves - 1) ⟨c, {}⟩ with
    | .ok [] w => if c.isAt (.keyword .SELECT) then some w.cursor.rest else none
    | _ => none

theorem frontRead_of_rest (h : frontRest? d rule sql = some (ts ++ more))
    (hend : more = [] → ∃ t, (TokenStream.ofText d sql.toList).ending = .ok t) :
    ∃ c w, (Cursor.ofText d sql).advance = .ok c ∧ FrontRead rule c ts more w := by
  unfold frontRest? at h
  split at h
  · cases h
  next c hc =>
    split at h
    · next w hrun =>
      split at h
      · next hat =>
        have hmoves : c.moves = c.moves - 1 + 1 := (Nat.succ_pred_eq_of_pos (Nat.succ_pos _)).symm
        have hprogress := (queryFront_progress trivial trivial Stands.queryPlaces (.select hc hat)
          (not_question_of_keyword hat) hrun).1
        have hending : w.cursor.ahead.ending = (TokenStream.ofText d sql.toList).ending :=
          hprogress.found.reaches.ending.trans (Cursor.advance_ending hc)
        have hfaces : w.cursor.Faces (ts ++ more) :=
          ⟨fun t ht => Cursor.ending_type (hending ▸ ht), Or.inl (Option.some.inj h)⟩
        exact ⟨c, w, hc, hat, ⟨_, hmoves, hrun⟩, hfaces, fun hnil => hending ▸ hend hnil⟩
      · cases h
    · cases h

/-! ## The text -/

theorem WritesLimit.front (h : WritesLimit comma o r ts) (more : List Token) :
    ∃ word, frontType (ts ++ more) = .keyword word := by
  cases h with
  | rowCountFirst hl _ => exact ⟨.LIMIT, hl⟩
  | offsetFirst hf _ => exact ⟨.OFFSET, hf⟩
  | comma _ hl _ => exact ⟨.LIMIT, hl⟩

/-- What a cursor has counted and what stands in front of a token that it faces are all the
placeholders in front of the token. -/
theorem Counted.placedBehind {c : Cursor} {k i : ℕ} (h : Counted (Cursor.ofText d sql) c k)
    (hc : c.Faces (ts ++ more)) (hword : ∃ word, frontType (ts ++ more) = .keyword word)
    (ht : PlacedBehind ts t i) :
    PlacedBehind (TokenStream.ofText d sql.toList).tokens t (k + i) := by
  obtain ⟨us, hwalk, rfl⟩ := h
  obtain ⟨before, behind, rfl, rfl⟩ := ht
  obtain ⟨word, hword⟩ := hword
  rw [← hc.type] at hword
  rcases hwalk.rest with hr | ⟨-, he⟩
  · have hrest : c.rest = before ++ t :: behind ++ more := hc.rest.resolve_right (by simp)
    cases us with
    | nil =>
      -- A text has no token in front of its first one.
      obtain ⟨hc, -⟩ := List.cons.inj hr
      rw [← hc] at hword
      cases hword
    | cons u us =>
      obtain ⟨rfl, htokens⟩ := List.cons.inj hr
      refine ⟨us ++ before, behind ++ more, ?_, ?_⟩
      · change (TokenStream.ofText d sql.toList).tokens = _ at htokens
        rw [htokens, hrest]
        simp
      · simp [placeholderCount, List.countP_append, Token.unread, Cursor.ofText]
  · obtain ⟨j, hj⟩ := Cursor.ending_type he
    rw [hj] at hword
    cases hword

/-- A token has one place in its text. -/
theorem PlacedBehind.unique {text : List Char} {i j : ℕ}
    (h : PlacedBehind (TokenStream.ofText d text).tokens t i)
    (h' : PlacedBehind (TokenStream.ofText d text).tokens t j) : i = j := by
  obtain ⟨before, behind, hts, rfl⟩ := h
  obtain ⟨before', behind', hts', rfl⟩ := h'
  have hordered := TokenStream.ofText_ordered d text
  have hnodup : (TokenStream.ofText d text).tokens.Nodup := by
    refine hordered.apart.imp_of_mem fun {t u} ht _ hle heq => ?_
    have hlt := hordered.nonempty t ht
    rw [heq] at hle hlt
    omega
  rw [hts] at hnodup
  have hbefore : t ∉ before := fun hmem =>
    (List.nodup_append.1 hnodup).2.2 t hmem t (List.mem_cons_self ..) rfl
  have hbehind : t ∉ behind := (List.nodup_cons.1 (List.nodup_append.1 hnodup).2.1).1
  have hsame := (List.append_cons_inj_of_notMem hbefore hbehind).1 (hts.symm.trans hts')
  rw [hsame.1]

/-! ### Edits -/

def Edit.isPart (part : LimitPart) : Edit → Bool
  | .offset _ _ => part == .offset
  | .rowCount _ _ => part == .rowCount
  | _ => false

def partEdits (part : LimitPart) (es : List Edit) : List Edit := es.filter (Edit.isPart part)

theorem partEdits_isLimit (es : List Edit) :
    partEdits part (es.filter Edit.isLimit) = partEdits part es := by
  unfold partEdits
  rw [List.filter_filter]
  congr 1
  funext e
  cases e <;> simp [Edit.isPart, Edit.isLimit]

theorem partEdits_append {es fs : List Edit} :
    partEdits part (es ++ fs) = partEdits part es ++ partEdits part fs := List.filter_append ..

namespace Amount

variable {a : Amount} {part' : LimitPart} {es : List Edit}

theorem partEdits_edits : partEdits part' (a.edits part t) =
    if part' = part then a.edits part t else [] := by
  cases a <;> cases part <;> cases part' <;> rfl

theorem edits_of_perm (h : es.Perm (a.edits part t)) : es = a.edits part t := by
  cases a with
  | number value => exact List.perm_singleton.1 h
  | all => exact List.perm_nil.1 h
  | placeholder => exact List.perm_nil.1 h

end Amount

/-- The statement of a query has, for each part of its row limit, the edits that its clause makes
there. -/
theorem Limited.partEdits_sorted {w v : Workspace Query} (h : Limited m n o r ts w more v)
    (hw : w.draft.findings.limitEdits = []) (catalog : Catalog) :
    partEdits .offset (Edit.sorted (v.draft.derive catalog).findings.edits) =
        m.edits .offset o ∧
      partEdits .rowCount (Edit.sorted (v.draft.derive catalog).findings.edits) =
        n.edits .rowCount r := by
  obtain ⟨es, hes, hperm⟩ := h.edits
  have hclause : v.draft.findings.limitEdits = es.filter Edit.isLimit := by
    unfold Findings.limitEdits at hw ⊢
    rw [hes, List.filter_append, hw, List.nil_append]
  have hperm' : ∀ part : LimitPart,
      (partEdits part (Edit.sorted (v.draft.derive catalog).findings.edits)).Perm
        (partEdits part (m.edits .offset o ++ n.edits .rowCount r)) := by
    intro part
    have hread : partEdits part (v.draft.derive catalog).findings.edits = partEdits part es := by
      rw [← partEdits_isLimit, ← partEdits_isLimit es, ← hclause, ← derive_limitEdits catalog]
      rfl
    have hsorted := (List.mergeSort_perm (v.draft.derive catalog).findings.edits
      fun a b => a.start ≤ b.start).filter (Edit.isPart part)
    exact hsorted.trans ((List.Perm.of_eq hread).trans (hperm.filter _))
  have hoffset := hperm' .offset
  have hrowCount := hperm' .rowCount
  rw [partEdits_append, Amount.partEdits_edits, Amount.partEdits_edits] at hoffset hrowCount
  simp only [if_true, reduceCtorEq, if_false, List.append_nil, List.nil_append] at hoffset hrowCount
  exact ⟨Amount.edits_of_perm hoffset, Amount.edits_of_perm hrowCount⟩

/-! ### The statement -/

theorem FrontRead.achieves_text {c : Cursor} {w : Workspace Query}
    (hd : d.grammar.rowLimit = .limit comma) (hc : (Cursor.ofText d sql).advance = .ok c)
    (hfront : FrontRead rule c ts more w) (hts : WritesLimit comma o r ts) (ho : m.IsWritten o)
    (hr : n.IsWritten r) (hmore : frontType more ∉ keywordTypes d.grammar.setOperations) :
    Achieves ⟨Cursor.ofText d sql, ()⟩ (text rule catalog) fun s _ => ∃ v,
      Limited m n o r ts w more v ∧
        s = .select ((SelectStatement.mk v.draft []).merged.derive catalog) := by
  have hadvance : Parser.advance (⟨Cursor.ofText d sql, ()⟩ : Workspace Unit) = .ok () ⟨c, ()⟩ :=
    Parser.advance_ok.2 ⟨c, hc, rfl⟩
  have hdialect : c.dialect = d := Cursor.advance_dialect hc
  have hlevel := hfront.achieves_queryLevel (by rw [hdialect, hd]) hts ho hr
    (by rw [hdialect]; exact hmore)
  unfold text
  apply (settles_bind_ok hadvance).2
  apply (settles_selectWord (Cursor.isAt_iff.1 hfront.word) hlevel).mono
  rintro s _ ⟨_, v, ⟨rfl, hv⟩, hs⟩
  exact ⟨v, hv, hs⟩

/-- A SELECT without sub-queries whose other clauses are read up to its row limit has the row limit
with the values that are written for its parts, in whatever spelling. An edit stands for each
literal value and for nothing else, and the ordinals are those of the placeholders in the text if
none of these stands for a name. -/
theorem row_limit_read {c : Cursor} {w : Workspace Query}
    (hd : d.grammar.rowLimit = .limit comma) (hc : (Cursor.ofText d sql).advance = .ok c)
    (hfront : FrontRead rule c ts more w) (hts : WritesLimit comma o r ts) (ho : m.IsWritten o)
    (hr : n.IsWritten r) (hmore : frontType more ∉ keywordTypes d.grammar.setOperations) :
    ∃ s i j, parse d rule catalog sql = .ok (.select s) ∧ s.inner = [] ∧
      s.query.limit? = limitOf (m.value? i) (n.value? j) ∧
      partEdits .offset s.query.findings.edits = m.edits .offset o ∧
      partEdits .rowCount s.query.findings.edits = n.edits .rowCount r ∧
      (PlainNames rule (Cursor.ofText d sql) →
        PlacedBehind (TokenStream.ofText d sql.toList).tokens o i ∧
        PlacedBehind (TokenStream.ofText d sql.toList).tokens r j) := by
  have hdialect : c.dialect = d := Cursor.advance_dialect hc
  have hstyle : c.dialect.grammar.rowLimit ≠ .top := by
    rw [hdialect, hd]
    exact fun h => by cases h
  have hedits : w.draft.findings.limitEdits = [] := (hfront.keepsLimit.kept hstyle).2
  rcases parse_of_settles (hfront.achieves_text hd hc hts ho hr hmore) with
    ⟨_, -, ⟨v, hv, rfl⟩, hparse⟩ | ⟨_, hfault, -⟩
  · obtain ⟨i, j, hi, hj, hlimit⟩ := hv.limit
    obtain ⟨hoffset, hrowCount⟩ := hv.partEdits_sorted hedits catalog
    refine ⟨_, w.draft.findings.placeholders + i, w.draft.findings.placeholders + j, hparse, rfl,
      (Query.derive_limit catalog v.draft).trans hlimit, hoffset, hrowCount, fun hp => ?_⟩
    have hcounted := hfront.counted hc rfl hp
    have hword := hts.front more
    exact ⟨hcounted.placedBehind hfront.passes.faces hword hi,
      hcounted.placedBehind hfront.passes.faces hword hj⟩
  · exact hfault.elim

/-- The placeholder of the offset comes behind that of a condition. -/
theorem row_limit_read_comma : ∃ s,
    parse .mysql ⟨[("t_order", ⟨["user_id"], none⟩)], none⟩ ⟨[]⟩
      "SELECT a FROM t_order WHERE user_id = ? LIMIT ?, 10" = .ok (.select s) ∧ s.inner = [] ∧
    s.query.limit? = some ⟨some (.placeholder 1), some (.literal 10)⟩ ∧
    partEdits .offset s.query.findings.edits = [] ∧
    partEdits .rowCount s.query.findings.edits = [.rowCount 49 10] := by
  have hrest : frontRest? .mysql ⟨[("t_order", ⟨["user_id"], none⟩)], none⟩
      "SELECT a FROM t_order WHERE user_id = ? LIMIT ?, 10" =
        some ([⟨.keyword .LIMIT, "LIMIT", 40, 45⟩, ⟨.symbol .question, "?", 46, 47⟩,
          ⟨.symbol .comma, ",", 47, 48⟩, ⟨.literal .int, "10", 49, 51⟩] ++ []) := by
    decide +kernel
  have hending : ∃ t, (TokenStream.ofText .mysql
      "SELECT a FROM t_order WHERE user_id = ? LIMIT ?, 10".toList).ending = .ok t :=
    ⟨Token.atEnd 51, by decide +kernel⟩
  obtain ⟨c, w, hc, hfront⟩ := frontRead_of_rest hrest fun _ => hending
  have hoffset : Amount.placeholder.IsWritten ⟨.symbol .question, "?", 46, 47⟩ := rfl
  have hrowCount : (Amount.number 10).IsWritten ⟨.literal .int, "10", 49, 51⟩ :=
    ⟨rfl, by decide +kernel⟩
  have hplain : PlainNames ⟨[("t_order", ⟨["user_id"], none⟩)], none⟩ (Cursor.ofText .mysql
      "SELECT a FROM t_order WHERE user_id = ? LIMIT ?, 10") :=
    plainNames_of_tokens (by decide +kernel) (by decide +kernel)
  have hone : PlacedBehind (TokenStream.ofText .mysql
      "SELECT a FROM t_order WHERE user_id = ? LIMIT ?, 10".toList).tokens
      ⟨.symbol .question, "?", 46, 47⟩ 1 :=
    ⟨(TokenStream.ofText .mysql
      "SELECT a FROM t_order WHERE user_id = ? LIMIT ?, 10".toList).tokens.take 9,
      [⟨.symbol .comma, ",", 47, 48⟩, ⟨.literal .int, "10", 49, 51⟩], by decide +kernel,
      by decide +kernel⟩
  obtain ⟨s, i, j, hparse, hinner, hlimit, hedits, hedits', hplaced⟩ :=
    row_limit_read rfl hc hfront (.comma rfl rfl rfl) hoffset hrowCount (by decide)
  obtain rfl := (hplaced hplain).1.unique hone
  exact ⟨s, hparse, hinner, hlimit, hedits, hedits'⟩

def Statement.rowLimit? : Statement → Option (Option RowLimit)
  | .select s => some s.query.limit?
  | _ => none

/-- A placeholder in the place of a name is not counted, and a select list that is not read to its
end hides the row limit. -/
theorem row_limit_miscounted :
    (∃ s, parse .mysql ⟨[("t_order", ⟨["user_id"], none⟩)], none⟩ ⟨[]⟩
        "SELECT a.? FROM t_order LIMIT ? OFFSET 3" = .ok s ∧
      s.rowLimit? = some (some ⟨some (.literal 3), some (.placeholder 0)⟩)) ∧
    PlacedBehind (TokenStream.ofText .mysql
      "SELECT a.? FROM t_order LIMIT ? OFFSET 3".toList).tokens ⟨.symbol .question, "?", 30, 31⟩ 1 ∧
    ∃ s, parse .mysql ⟨[("t_order", ⟨["user_id"], none⟩)], none⟩ ⟨[]⟩
        "SELECT COUNT(status)+1 FROM t_order LIMIT 5 OFFSET 2" = .ok s ∧
      s.rowLimit? = some none := by
  refine ⟨parse_of_view _ _ _ _ _ _ (by decide +kernel),
    ⟨(TokenStream.ofText .mysql "SELECT a.? FROM t_order LIMIT ? OFFSET 3".toList).tokens.take 7,
      [⟨.keyword .OFFSET, "OFFSET", 32, 38⟩, ⟨.literal .int, "3", 39, 40⟩], by decide +kernel,
      by decide +kernel⟩, parse_of_view _ _ _ _ _ _ (by decide +kernel)⟩

end SqlFront

import SqlFront.Proofs.Selection.Level
import SqlFront.Proofs.Selection.Tail
import SqlFront.Proofs.SetOperation.Clause

/-!
# Set operations behind a query

A query looks for a set operation in one place, behind its last clause. The operation is refused
where the reading comes to it, and is not seen where the reading ends in front of it.
-/

set_option autoImplicit false

namespace SqlFront

open Computability SqlFront.Parser SqlFront.Clause SqlFront.Reading Marked

variable {m : Marked} {σ : Type} {L L' : Language TokenType} {c c' : Cursor} {ts : List TokenType}
  {t : TokenType} {rule : ShardingRule}

/-! ## In front of the select list -/

namespace Marked

def Behind (m : Marked) (L : Language TokenType) (c : Cursor) : Prop :=
  ∃ xs os, m.Stands (xs ++ os) c ∧ os.map Token.type ∈ L

theorem Behind.upTo (h : m.Behind L c) : m.UpTo c := by
  obtain ⟨xs, os, hc, -⟩ := h
  exact ⟨_, hc⟩

theorem Behind.mono (h : m.Behind L c) (hle : L ≤ L') : m.Behind L' c := by
  obtain ⟨xs, os, hc, hos⟩ := h
  exact ⟨xs, os, hc, hle hos⟩

theorem Exposed.step_behind (h : m.Exposed) (hc : m.Behind L c) (ht : c.current.type ∈ ts)
    (hother : c.current.type ∉ operationTypes) (ha : c.advance = .ok c') :
    m.Behind (L * oneOf ts) c' := by
  obtain ⟨xs, os, hs, hos⟩ := hc
  refine ⟨xs, os ++ [c.current], ?_, ?_⟩
  · rw [← List.append_assoc]
    exact hs.step (h.ne_before hs hother) ha
  · rw [List.map_append]
    exact Language.append_mem_mul hos ⟨_, ht, rfl⟩

theorem Exposed.steps_behind (h : m.Exposed) (hother : ∀ t ∈ ts, t ∉ operationTypes) :
    Steps (m.Behind L) ts (m.Behind (L * oneOf ts)) :=
  fun _ _ hc ht ha => h.step_behind hc ht (hother _ ht) ha

theorem Exposed.short_of_beforeList (h : m.Exposed) (hc : m.Behind (beforeList m.dialect) c) :
    m.ShortOf c := by
  obtain ⟨xs, os, hs, hos⟩ := hc
  exact ⟨_, hs, fun hbefore => h.opened xs os hbefore.symm hos⟩

end Marked

section

variable (h : m.Exposed)

include h

theorem carries_optional (hother : ∀ t ∈ ts, t ∉ operationTypes) :
    Carries (m.Behind L) (skipIf ts : Parser σ Bool) fun _ => m.Behind (L * (1 + oneOf ts)) := by
  refine (Carries.skipIf (h.steps_behind hother)).mono fun b c hc => ?_
  rw [mul_add, mul_one]
  cases b with
  | true => exact hc.mono le_add_self
  | false => exact Behind.mono (by simpa using hc) le_self_add

theorem carries_skipAll (hother : ∀ t ∈ ts, t ∉ operationTypes) :
    Carries (m.Behind L) (skipAll ts : Parser σ Unit) fun _ => m.Behind (L * (oneOf ts)∗) := by
  refine .weaken (.skipAll fun c c' hc ht ha => ?_) fun c hc => hc.mono ?_
  · refine (h.steps_behind hother hc ht ha).mono ?_
    rw [mul_assoc]
    exact mul_le_mul_right kstar_mul_le_kstar L
  · exact le_mul_of_one_le_right' one_le_kstar

theorem carries_distinctClause : Carries (m.Behind L) (distinctClause : Parser σ Unit) fun _ =>
    m.Behind (L * (1 + oneOf [.keyword .ALL])) := by
  refine .bind (carries_optional h (by decide)) fun _ => ?_
  exact .grammar_bind (fun _ hc => hc.upTo.dialect) (Carries.refuseIf.mono fun _ _ hc => hc.1)

theorem carries_limitValue {part : LimitPart} :
    Carries (m.Behind L) (limitValue part) fun _ => m.Behind (L * topNumber) := by
  have hstep : ∀ {c c' : Cursor} {t : TokenType}, m.Behind L c → c.current.type = t →
      t ∈ [TokenType.keyword .ALL, .symbol .question, .literal .int] → c.advance = .ok c' →
      m.Behind (L * topNumber) c' := by
    rintro c c' _ hc rfl ht ha
    exact h.steps_behind (by decide) hc ht ha
  refine .skipIf_bind (fun c c' hc ht ha => ?_) (.pure fun _ hc => hc) (.isAt_bind ?_ ?_)
  · exact hstep hc (List.mem_singleton.1 ht) (by decide) ha
  · refine .bind .countPlaceholder fun _ => .bind (.advance fun c c' hc ha => ?_) fun _ =>
      .pure fun _ hc => hc
    exact hstep hc.1 hc.2 (by decide) ha
  · refine .bind (A := fun _ => m.Behind (L * topNumber)) ?_ fun _ => .pure fun _ hc => hc
    intro w v w' hw hr
    obtain ⟨-, c, value, hint, hc, rfl⟩ := literalValue_ok hr
    exact hstep hw (Cursor.isAt_iff.1 hint) (by decide) hc

theorem carries_topValue : Carries (m.Behind L) topValue fun _ => m.Behind
    (L * (topNumber + oneOf [.symbol .leftParen] * topNumber * oneOf [.symbol .rightParen])) := by
  simp only [mul_add, ← mul_assoc]
  refine .skipIf_bind (h.steps_behind (by decide)) ?_ ?_
  · refine .bind (carries_limitValue h) fun _ => .bind (.expect (h.steps_behind (by decide))) fun _ => ?_
    exact .pure fun _ hc => hc.mono le_add_self
  · exact (carries_limitValue h).mono fun _ _ hc => hc.mono le_self_add

theorem carries_topClause : Carries (m.Behind L) topClause fun _ =>
    m.Behind (L * (1 + if m.dialect.grammar.rowLimit = .top then topForm else 0)) := by
  refine .grammar_bind (fun _ hc => hc.upTo.dialect) (.ite (fun htop => ?_) fun _ => .pure ?_)
  · rw [if_pos (by simpa using htop), mul_add, mul_one]
    refine .skipIf_bind (h.steps_behind (by decide)) ?_ (.pure fun _ hc => hc.mono le_self_add)
    refine .mono (A := fun _ => m.Behind (L * topForm)) ?_ fun _ _ hc => hc.mono le_add_self
    simp only [topForm, ← mul_assoc]
    have hset : ∀ (l? : Option LimitValue) {P : Cursor → Prop}, Carries P (if l?.isSome then
        modifyDraft fun q : Query => { q with limit? := some ⟨none, l?⟩ } else Pure.pure ())
        fun _ => P := fun l? _ => .ite (fun _ => .modifyDraft) fun _ => .pure fun _ hc => hc
    refine .bind (.onFindings (carries_topValue h)) fun l? => ?_
    refine .bind (carries_optional h (by decide)) fun _ => ?_
    generalize _ * (1 + oneOf [.keyword .PERCENT]) = M
    rw [mul_add, mul_one, ← mul_assoc]
    refine .skipIf_bind (h.steps_behind (by decide)) ?_ ?_
    · refine .bind (.expect (h.steps_behind (by decide))) fun _ => ?_
      exact (hset l?).mono fun _ _ hc => hc.mono le_add_self
    · exact (hset l?).mono fun _ _ hc => hc.mono le_self_add
  · exact fun _ hc => hc.mono (le_mul_of_one_le_right' le_self_add)

theorem carries_queryHead : Carries (fun c => m.UpTo c ∧ c.current.type = .keyword .SELECT)
    (queryHead rule) fun _ => m.UpTo := by
  have hoptions : ∀ t ∈ keywordTypes m.dialect.grammar.selectOptions, t ∉ operationTypes := by
    cases m.dialect <;> decide
  refine .bind (.advance (Q := m.Behind (oneOf [.keyword .SELECT])) ?_) fun _ => ?_
  · rintro c c' ⟨⟨xs, hxs⟩, ht⟩ ha
    refine ⟨xs, [c.current], hxs.step (h.ne_before hxs (ht ▸ by decide)) ha, ?_⟩
    exact ⟨_, List.mem_singleton_self _, by simp [ht]⟩
  refine .bind (carries_distinctClause h) fun _ => ?_
  refine .grammar_bind (fun _ hc => hc.upTo.dialect) ?_
  refine .bind (carries_skipAll h hoptions) fun _ => .bind (carries_topClause h) fun _ => ?_
  refine .bind ((carries_selectList h).weaken fun _ hc => h.short_of_beforeList hc) fun _ => ?_
  exact Carries.refuseIf.mono fun _ _ hc => hc.1

/-! ## Behind WHERE -/

omit h in
theorem carries_orderItem {P : Cursor → Prop} {direction nulls : Direction} {e : Expression} :
    Carries P (orderItem direction nulls e) fun _ => P := by
  refine .draft_bind fun q => .cursor_bind fun c => ?_
  cases orderItem? q c.previousStop direction nulls e with
  | ok item? => exact .pure fun _ hc => hc
  | error fault => exact .throw

theorem carries_direction : Carries m.UpTo (direction : Parser σ Direction) fun _ => m.UpTo := by
  refine .skipIf_bind (h.steps_other (by decide)) (.pure fun _ hc => hc) ?_
  exact .bind (.optional (h.steps_other (by decide))) fun _ => .pure fun _ hc => hc

theorem carries_groupByClause : Carries m.UpTo groupByClause fun _ => m.UpTo := by
  have hrollup : ∀ t ∈ keywordTypes m.dialect.grammar.afterGroupBy, t ∉ operationTypes := by
    cases m.dialect <;> decide
  have hitem : Carries m.ShortOf groupByItem fun _ => m.UpTo := by
    refine .bind (.onFindings (carries_expression h)) fun e => ?_
    refine .bind (carries_direction h) fun _ => .bind carries_orderItem fun item? => ?_
    cases item? with
    | some item => exact .modifyDraft
    | none => exact .pure fun _ hc => hc
  refine .skipIf_bind (h.steps_other (by decide)) ?_ (.pure fun _ hc => hc)
  refine .bind (.expect (h.steps_caller (by decide))) fun _ => ?_
  refine .bind (Carries.separated hitem (h.steps_caller (by decide))).discard fun _ => ?_
  refine .grammar_bind (fun _ hc => hc.dialect) ?_
  refine .bind (.skipAll (h.steps_other hrollup)) fun _ => .cursor_bind fun _ => ?_
  exact .modifyDraft

theorem carries_orderByItem : Carries m.ShortOf orderByItem fun _ => m.UpTo := by
  have hitem : ∀ direction e, Carries m.UpTo
      (do orderItem direction (← grammar).nullsOrder e) fun _ => m.UpTo := fun _ _ =>
    .grammar_bind (fun _ hc => hc.dialect) carries_orderItem
  refine .bind (.onFindings (carries_expression h)) fun e => .bind (carries_direction h) fun _ => ?_
  refine .skipIf_bind (h.steps_other (by decide)) ?_ (hitem _ _)
  exact .bind (.optional (h.steps_other (by decide))) fun _ => hitem _ _

theorem carries_orderByClause : Carries m.UpTo orderByClause fun _ => m.UpTo := by
  have hlist : Carries m.UpTo (do
      expectKeyword .BY
      let items ← commaSeparated orderByItem
      modifyDraft fun q => { q with orderBy := q.orderBy ++ items.filterMap id }) fun _ => m.UpTo := by
    refine .bind (.expect (h.steps_caller (by decide))) fun _ => ?_
    exact .bind (.separated (carries_orderByItem h) (h.steps_caller (by decide))) fun _ => .modifyDraft
  refine .skipIf_bind (h.steps_other (by decide)) ?_ (.pure fun _ hc => hc)
  refine .grammar_bind (fun _ hc => hc.dialect) (.ite (fun _ => ?_) fun _ => hlist)
  exact .bind (.optional (h.steps_other (by decide))) fun _ => hlist

theorem carries_limitNumber {part : LimitPart} :
    Carries m.UpTo (limitValue part) fun _ => m.UpTo := by
  have hbehind : ∀ c, m.UpTo c → m.Behind 1 c := fun c ⟨xs, hxs⟩ => ⟨xs, [], by simpa using hxs, rfl⟩
  exact ((carries_limitValue h).weaken hbehind).mono fun _ _ hc => hc.upTo

theorem carries_limitPart {word : Keyword} {part : LimitPart}
    (hword : TokenType.keyword word ∉ operationTypes) :
    Carries m.UpTo (limitPart word part) fun _ => m.UpTo :=
  .skipIf_bind (h.steps_other (by simpa using hword)) (carries_limitNumber h) (.pure fun _ hc => hc)

theorem carries_limitAndOffset {comma : Bool} :
    Carries m.UpTo (limitAndOffset comma) fun _ => m.UpTo := by
  have hpair : Carries m.UpTo offsetAndRowCount fun _ => m.UpTo := by
    refine .bind (carries_limitNumber h) fun _ => .bind (.expect (h.steps_other (by decide))) fun _ => ?_
    exact .bind (carries_limitNumber h) fun _ => .pure fun _ hc => hc
  have hvalues : Carries m.UpTo (limitValues comma) fun _ => m.UpTo := by
    have hrest : ∀ b : Bool, Carries m.UpTo (if b then offsetAndRowCount else do
        let rowCount? ← limitValue .rowCount
        let offset? ← limitPart .OFFSET .offset
        return ⟨offset?, rowCount?⟩) fun _ => m.UpTo := fun _ => by
      refine .ite (fun _ => hpair) fun _ => .bind (carries_limitNumber h) fun _ => ?_
      exact .bind (carries_limitPart h (by decide)) fun _ => .pure fun _ hc => hc
    cases comma with
    | true => exact .bind .isAhead hrest
    | false => exact hrest false
  refine .skipIf_bind (h.steps_other (by decide)) hvalues ?_
  refine .skipIf_bind (h.steps_other (by decide)) ?_ (.pure fun _ hc => hc)
  refine .bind (carries_limitNumber h) fun _ => ?_
  exact .bind (carries_limitPart h (by decide)) fun _ => .pure fun _ hc => hc

theorem carries_limitClause : Carries m.UpTo limitClause fun _ => m.UpTo := by
  refine .grammar_bind (fun _ hc => hc.dialect) ?_
  split
  · refine .bind (.onFindings (carries_limitAndOffset h)) fun limit => ?_
    exact .ite (fun _ => .modifyDraft) fun _ => .pure fun _ hc => hc
  · exact .pure fun _ hc => hc

theorem carries_queryTail : Carries m.UpTo queryTail fun _ => m.ShortOf := by
  refine .bind (carries_groupByClause h) fun _ => ?_
  refine .bind (Carries.refuseIf.mono fun _ _ hc => hc.1) fun _ => ?_
  refine .bind (carries_orderByClause h) fun _ => .bind (carries_limitClause h) fun _ => ?_
  refine .grammar_bind (fun _ hc => hc.dialect) (Carries.refuseIf.mono ?_)
  rintro _ c ⟨⟨xs, hxs⟩, ht⟩
  refine ⟨xs, hxs, ?_⟩
  rintro rfl
  obtain ⟨-, between, hbefore, hrest⟩ := hxs
  obtain rfl : between = [] := by simpa using hbefore
  obtain ⟨hcurrent, -⟩ := List.cons.inj hrest
  exact ht (hcurrent ▸ h.operation)

/-! ## Levels -/

omit h in
theorem carries_isAtSubQuery_bind {α : Type} {P : Cursor → Prop} {f : Bool → Parser σ α}
    {A : α → Cursor → Prop} (htrue : Carries (fun c => P c ∧ AtSubQuery c) (f true) A)
    (hfalse : Carries P (f false) A) : Carries P (isAtSubQuery >>= f) A := by
  intro w a w' hw hr
  obtain ⟨b, v, hb, hr⟩ := bind_ok.1 hr
  obtain ⟨rfl, hiff⟩ := atSubQuery_of_ok hb
  cases b with
  | true => exact htrue ⟨hw, hiff.1 rfl⟩ hr
  | false => exact hfalse hw hr

theorem carries_nestedQuery {sub : Parser Query (List Query)}
    (hsub : Carries (fun c => m.UpTo c ∧ c.current.type = .keyword .SELECT) sub fun _ => m.UpTo) :
    Carries (fun c => m.UpTo c ∧ c.current.type = .keyword .SELECT) (nestedQuery sub)
      fun _ => m.UpTo := by
  refine .draft_bind fun q => .bind (.inside hsub) fun r => ?_
  refine .bind (.onFindings .modifyDraft) fun _ => ?_
  exact .bind (.expect (h.steps_other (by decide))) fun _ => .pure fun _ hc => hc

theorem carries_behindNestedQuery : Carries m.UpTo (behindNestedQuery rule) fun _ => m.UpTo := by
  refine .bind (carries_alias? h) fun _ => .bind (.onFindings (carries_joins h)) fun _ => ?_
  refine .skipIf_bind (h.steps_caller (by decide)) ?_ (.pure fun _ hc => hc)
  exact .onFindings (carries_tableReferences h)

theorem carries_fromClause {sub : Parser Query (List Query)}
    (hsub : Carries (fun c => m.UpTo c ∧ c.current.type = .keyword .SELECT) sub fun _ => m.UpTo) :
    Carries m.UpTo (fromClause rule sub) fun _ => m.UpTo := by
  refine .skipIf_bind (h.steps_caller (by decide)) ?_ (.pure fun _ hc => hc)
  refine carries_isAtSubQuery_bind ?_ ?_
  · refine .bind (.advance fun c c' hc ha => ?_) fun _ => .bind (carries_nestedQuery h hsub) fun _ => ?_
    · exact ⟨hc.1.step ha, hc.2.select ha⟩
    · exact .bind (carries_behindNestedQuery h) fun _ => .pure fun _ hc => hc
  · exact .bind (.onFindings (carries_tableReferences h)) fun _ => .pure fun _ hc => hc

theorem carries_queryLevel {n : ℕ} :
    Carries (fun c => m.UpTo c ∧ c.current.type = .keyword .SELECT) (queryLevel rule n)
      fun _ => m.ShortOf := by
  -- By induction on its levels.
  induction n with
  | zero => exact .throw
  | succ n ih =>
    refine .bind (carries_queryHead h) fun _ => ?_
    refine .bind (carries_fromClause h (ih.mono fun _ _ hc => hc.upTo)) fun inner => ?_
    refine .bind (.onFindings (carries_whereClause h)) fun _ => ?_
    exact .bind (carries_queryTail h) fun _ => .pure fun _ hc => hc

end

/-! ## Whole texts -/

variable {d : Dialect} {catalog : Catalog} {sql : String} {s : Statement}

def EndsAt (d : Dialect) (rule : ShardingRule) (sql : String) (c' : Cursor) : Prop :=
  ∃ c inner q, (Cursor.ofText d sql).advance = .ok c ∧ c.isAt (.keyword .SELECT) = true ∧
    queryLevel rule c.moves ⟨c, {}⟩ = .ok inner ⟨c', q⟩

theorem EndsAt.accepted (he : EndsAt d rule sql c') : ∃ s, parse d rule catalog sql = .ok s := by
  obtain ⟨c, inner, q, hc, hat, hread⟩ := he
  rw [Cursor.isAt_iff] at hat
  have hlevel : Achieves ⟨c, {}⟩ (queryLevel rule c.moves) fun _ _ => True :=
    (settles_of_ok hread).2 trivial
  obtain ⟨s, w, hs, -⟩ := Achieves.run (settles_selectWord hat hlevel)
  exact ⟨_, parse_ok.2 ⟨s, w.cursor, bind_ok.2 ⟨(), ⟨c, ()⟩, advance_ok.2 ⟨c, hc, rfl⟩, hs⟩, rfl⟩⟩

/-- Still ahead of the cursor is the marked token with what is behind it. -/
theorem Marked.ShortOf.ahead (hc : m.ShortOf c) : m.token :: m.behind <:+ c.ahead.tokens := by
  obtain ⟨xs, ⟨-, between, hbefore, hrest⟩, hne⟩ := hc
  cases between with
  | nil => exact (hne (by simpa using hbefore.symm)).elim
  | cons t between => exact ⟨between, (List.cons.inj hrest).2.symm⟩

/-- In an accepted text with such a set operation the query ends in front of it. -/
theorem Marked.Exposed.endsAt {before behind : List Token} {u : Token}
    (h : Marked.Exposed ⟨d, before, u, behind⟩)
    (hts : (TokenStream.ofText d sql.toList).tokens = before ++ u :: behind)
    (hselect : frontType before = .keyword .SELECT) (hp : parse d rule catalog sql = .ok s) :
    ∃ c, EndsAt d rule sql c ∧ u :: behind <:+ c.ahead.tokens := by
  obtain ⟨t, ts, rfl⟩ : ∃ t ts, before = t :: ts := by
    refine List.exists_cons_of_ne_nil ?_
    rintro rfl
    cases hselect
  obtain ⟨c, hc, hfaces⟩ := Cursor.ofText_first (hts.trans (List.cons_append ..))
  have hat : c.isAt (.keyword .SELECT) = true := Cursor.isAt_iff.2 (hfaces.current ▸ hselect)
  obtain ⟨inner, v, hread, -⟩ := select_level hp hc hat
  have hstart : Marked.UpTo ⟨d, t :: ts, u, behind⟩ c :=
    ⟨[], Cursor.advance_dialect hc, t :: ts, rfl, hfaces.rest_cons⟩
  have hend := carries_queryLevel h ⟨hstart, Cursor.isAt_iff.1 hat⟩ hread
  exact ⟨v.cursor, ⟨c, inner, v.draft, hc, hat, hread⟩, hend.ahead⟩

theorem exists_exposed {as : List TokenType} {t u : TokenType}
    (htypes : as ++ [t, u] <+: (TokenStream.ofText d sql.toList).tokens.map Token.type)
    (hoperation : u ∈ keywordTypes d.grammar.setOperations)
    (hopen : openGroups (as ++ [t]) = 0 ∧ openCases (as ++ [t]) = 0)
    (ht : t ∉ callers ++ ownCallers d ++ beforeListTypes d) :
    ∃ before token behind, (TokenStream.ofText d sql.toList).tokens = before ++ token :: behind ∧
      frontType before = (as ++ [t]).headD .endOfText ∧
      Marked.Exposed ⟨d, before, token, behind⟩ := by
  obtain ⟨bs, hbs⟩ := htypes
  have hsplit : (as ++ [t]) ++ (u :: bs) = (TokenStream.ofText d sql.toList).tokens.map Token.type := by
    simpa using hbs
  obtain ⟨before, rest, hts, hbefore, hrest⟩ := List.map_eq_append_iff.1 hsplit.symm
  obtain ⟨token, behind, rfl, htoken, -⟩ := List.map_eq_cons_iff.1 hrest
  obtain ⟨xs, last, rfl, -, hlast⟩ := List.map_eq_append_iff.1 hbefore
  obtain ⟨x, rfl, hx⟩ := List.map_eq_singleton_iff.1 hlast
  refine ⟨xs ++ [x], token, behind, hts, ?_, ?_⟩
  · rw [← hbefore]
    cases xs <;> rfl
  · refine Marked.exposed_of_front (t := x) (by simp) (htoken ▸ hoperation) ?_ ?_ (hx ▸ ht)
    · exact hbefore ▸ hopen.1
    · exact hbefore ▸ hopen.2

/-- A text with a set operation outside of parentheses, where a query can end, is refused exactly if
its query is not read to an end in front of the operation. -/
theorem set_operation_refused_iff (d : Dialect) (rule : ShardingRule) (catalog : Catalog)
    (sql : String) (before behind : List Token) (u : Token)
    (hts : (TokenStream.ofText d sql.toList).tokens = before ++ u :: behind)
    (hselect : frontType before = .keyword .SELECT)
    (hexposed : Marked.Exposed ⟨d, before, u, behind⟩) :
    (∃ fault, parse d rule catalog sql = .error fault) ↔
      ¬∃ c, EndsAt d rule sql c ∧ u :: behind <:+ c.ahead.tokens := by
  constructor
  · rintro ⟨fault, hfault⟩ ⟨c, hend, -⟩
    obtain ⟨s, hs⟩ : ∃ s, parse d rule catalog sql = .ok s := hend.accepted
    rw [hs] at hfault
    cases hfault
  · intro hnot
    cases hp : parse d rule catalog sql with
    | error fault => exact ⟨fault, rfl⟩
    | ok s => exact (hnot (hexposed.endsAt hts hselect hp)).elim

/-- Behind a table the operation is refused, and the query is not read to an end in front of it. -/
theorem set_operation_refused_iff_table : ∃ before u behind,
    (TokenStream.ofText .mysql "SELECT * FROM t UNION SELECT * FROM t".toList).tokens =
      before ++ u :: behind ∧
    Marked.Exposed ⟨.mysql, before, u, behind⟩ ∧
    ¬∃ c, EndsAt .mysql ⟨[], none⟩ "SELECT * FROM t UNION SELECT * FROM t" c ∧
      u :: behind <:+ c.ahead.tokens := by
  obtain ⟨before, u, behind, hts, hselect, hexposed⟩ := @exists_exposed .mysql
    "SELECT * FROM t UNION SELECT * FROM t" [.keyword .SELECT, .symbol .star, .keyword .FROM]
    (.literal .identifier) (.keyword .UNION) (by decide +kernel) (by decide) (by decide) (by decide)
  have hrefused : ∃ fault, parse .mysql ⟨[], none⟩ ⟨[]⟩ "SELECT * FROM t UNION SELECT * FROM t" =
      .error fault := by
    have hnone : (parse .mysql ⟨[], none⟩ ⟨[]⟩
        "SELECT * FROM t UNION SELECT * FROM t").toOption.isNone := by decide +kernel
    cases hp : parse .mysql ⟨[], none⟩ ⟨[]⟩ "SELECT * FROM t UNION SELECT * FROM t" with
    | error fault => exact ⟨fault, rfl⟩
    | ok s => simp [hp, Except.toOption] at hnone
  have hiff := set_operation_refused_iff .mysql ⟨[], none⟩ ⟨[]⟩ _ before behind u hts hselect hexposed
  exact ⟨before, u, behind, hts, hexposed, hiff.1 hrefused⟩

def Statement.compared (s : Statement) : List (String × ConditionOperator) :=
  s.findings.conditions.toList.map fun x => (x.column.name, x.operator)

/-- XOR is no connective of conditions, and the reading ends in front of it: the operation is dropped
with the rest of the first query and the whole second one. -/
theorem set_operation_dropped : ∃ sql s before u behind,
    sql = "SELECT * FROM t_order WHERE user_id = 1 XOR status = 2 UNION SELECT * FROM t_order_item" ∧
    parse .mysql ⟨[("t_order", ⟨["user_id"], some "order_id"⟩)], none⟩ ⟨[]⟩ sql = .ok s ∧
    s.compared = [("user_id", .equal)] ∧
    (TokenStream.ofText .mysql sql.toList).tokens = before ++ u :: behind ∧
    frontType before = .keyword .SELECT ∧ Marked.Exposed ⟨.mysql, before, u, behind⟩ := by
  obtain ⟨s, hp, hcompared⟩ := parse_of_view .mysql
    ⟨[("t_order", ⟨["user_id"], some "order_id"⟩)], none⟩ ⟨[]⟩
    "SELECT * FROM t_order WHERE user_id = 1 XOR status = 2 UNION SELECT * FROM t_order_item"
    Statement.compared [("user_id", .equal)] (by decide +kernel)
  obtain ⟨before, u, behind, hts, hselect, hexposed⟩ := @exists_exposed .mysql
    "SELECT * FROM t_order WHERE user_id = 1 XOR status = 2 UNION SELECT * FROM t_order_item"
    [.keyword .SELECT, .symbol .star, .keyword .FROM, .literal .identifier, .keyword .WHERE,
      .literal .identifier, .symbol .equal, .literal .int, .literal .identifier,
      .literal .identifier, .symbol .equal]
    (.literal .int) (.keyword .UNION) (by decide +kernel) (by decide) (by decide) (by decide)
  exact ⟨_, s, before, u, behind, rfl, hp, hcompared, hts, hselect, hexposed⟩

end SqlFront

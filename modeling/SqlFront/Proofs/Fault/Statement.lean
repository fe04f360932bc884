import SqlFront.Proofs.Fault.Clause
import SqlFront.Proofs.Fault.Sited
import SqlFront.Reading.Basic

/-!
# Where statements fail

The first token of a text is the only one that a statement has not moved past. All statements begin
with a step past it, or refuse it.
-/

set_option autoImplicit false

namespace SqlFront

open SqlFront.Parser SqlFront.Clause

variable {d : Dialect} {sql : String} {rule : ShardingRule} {catalog : Catalog} {σ α β : Type}

/-! ## The first token -/

def Parser.SitedFirst (d : Dialect) (sql : String) (p : Parser σ α) : Prop :=
  ∀ ⦃w : Workspace σ⦄, w.cursor.StandsOn d sql →
    Settles w p (fun _ v => v.cursor.StandsBehind d sql) (Fault.SitedIn d sql)

namespace Parser.SitedFirst

variable {p : Parser σ α} {f : α → Parser σ β}

theorem sited (h : SitedFirst d sql p) : SitedAny d sql p :=
  fun _ hw => (h hw.toStandsOn).mono fun _ _ h => ⟨h, trivial⟩

theorem step {f : Unit → Parser σ β} (hf : SitedAny d sql (f ())) :
    SitedFirst d sql (advance >>= f) :=
  fun _ hw => (settles_step hw).bind fun _ _ h => (hf h).mono fun _ _ h => h.1

theorem bind (hp : SitedFirst d sql p) (hf : ∀ a, SitedAny d sql (f a)) :
    SitedFirst d sql (p >>= f) :=
  fun _ hw => (hp hw).bind fun a _ h => (hf a h).mono fun _ _ h => h.1

theorem inside {τ : Type} {own : τ} {p : Parser τ α} (hp : SitedFirst d sql p) :
    SitedFirst d sql (Parser.inside own p : Parser σ (τ × α)) := by
  intro w hw
  have hrun := hp (w := ⟨w.cursor, own⟩) hw
  unfold Settles Parser.inside at *
  cases hr : p ⟨w.cursor, own⟩ <;> rw [hr] at hrun <;> exact hrun

theorem refusal : SitedFirst d sql (failAt Cursor.refusal : Parser σ α) :=
  fun _ hw => hw.refusal

end Parser.SitedFirst

namespace Reading

/-! ## SELECT -/

theorem sited_nestedQuery {subQuery : Parser Query (List Query)} (h : SitedAny d sql subQuery) :
    SitedAny d sql (nestedQuery subQuery) := by
  refine sited_draft.next fun q => h.inside.any.next fun r => ?_
  refine (Sited.onFindings sited_modifyDraft).next fun _ => ?_
  exact sited_expect.next fun _ => .pure trivial

theorem sited_behindNestedQuery : SitedAny d sql (behindNestedQuery rule) := by
  refine sited_alias?.next fun _ => (Sited.onFindings sited_joins).next fun _ => ?_
  refine sited_skipSymbol.next fun b => .ite ?_ (.pure trivial)
  exact .onFindings (sited_tableReferences false)

theorem sited_fromClause {subQuery : Parser Query (List Query)} (h : SitedAny d sql subQuery) :
    SitedAny d sql (fromClause rule subQuery) := by
  refine sited_skipKeyword.next fun b => .ite ?_ (.pure trivial)
  refine sited_isAtSubQuery.next fun b => .ite ?_ ?_
  · refine sited_advance.next fun _ => (sited_nestedQuery h).next fun inner => ?_
    exact sited_behindNestedQuery.next fun _ => .pure trivial
  · exact (Sited.onFindings (sited_tableReferences false)).next fun _ => .pure trivial

theorem sitedFirst_queryHead : SitedFirst d sql (queryHead rule) := by
  refine .step (sited_distinctClause.next fun _ => sited_grammar.next fun g => ?_)
  refine sited_skipAll.next fun _ => sited_topClause.next fun _ => sited_selectList.next fun _ => ?_
  exact sited_refuseIf

theorem sited_queryTail : SitedAny d sql queryTail := by
  refine sited_groupByClause.next fun _ => sited_havingClause.next fun _ => ?_
  refine sited_orderByClause.next fun _ => sited_limitClause.next fun _ => ?_
  exact sited_setOperationClause

theorem sitedFirst_queryLevel (n : ℕ) : SitedFirst d sql (queryLevel rule n) := by
  induction n with
  | zero => exact fun _ _ => trivial
  | succ n ih =>
    refine sitedFirst_queryHead.bind fun _ => (sited_fromClause ih.sited).next fun inner => ?_
    refine (Sited.onFindings sited_whereClause).next fun _ => ?_
    exact sited_queryTail.next fun _ => .pure trivial

theorem sitedFirst_selectStatement : SitedFirst d sql (selectStatement rule catalog) := by
  intro w hw
  apply settles_cursor.2
  exact (sitedFirst_queryLevel _).inside.bind (fun _ => .pure trivial) hw

/-! ## INSERT, UPDATE and DELETE -/

theorem sited_completeKey : SitedAny d sql (completeKey rule) := by
  refine sited_insertTable.next fun table => ?_
  split
  · exact sited_modifyDraft
  · exact .pure trivial

theorem sitedFirst_insertStatement : SitedFirst d sql (insertStatement rule catalog) := by
  refine (SitedFirst.inside (.step ?_)).bind fun _ => .pure trivial
  refine sited_intoClause.next fun _ => (sited_columnList catalog).next fun _ => ?_
  refine sited_refuseIf.next fun _ => sited_valuesClause.next fun _ => ?_
  refine sited_insertAssignments.next fun _ => sited_duplicateKeyClause.next fun _ => ?_
  exact sited_completeKey

theorem sitedFirst_updateStatement : SitedFirst d sql (updateStatement rule) := by
  refine (SitedFirst.inside (.step ?_)).bind fun _ => .pure trivial
  refine sited_grammar.next fun g => sited_skipAll.next fun _ => ?_
  refine (sited_tableReferences true).next fun _ => sited_updateAssignments.next fun _ => ?_
  exact sited_whereClause

theorem sitedFirst_deleteStatement : SitedFirst d sql (deleteStatement rule) := by
  refine (SitedFirst.inside (.step ?_)).bind fun _ => .pure trivial
  refine sited_grammar.next fun g => sited_skipAll.next fun _ => ?_
  exact (sited_tableReferences true).next fun _ => sited_whereClause

/-! ## Access control, transaction control and administration -/

theorem sited_privilegeTable (t : Token) : SitedAny d sql (privilegeTable rule t) :=
  .ite sited_modifyDraft (.pure trivial)

theorem sited_privilegeTarget : SitedAny d sql (privilegeTarget rule) := by
  refine sited_skipUntil.next fun _ => sited_skipKeyword.next fun b => .ite ?_ (.pure trivial)
  refine sited_skipKeyword.next fun _ => sited_skipSymbol.next fun b => .ite (.pure trivial) ?_
  refine sited_current.any.next fun t => sited_advance.next fun _ => ?_
  refine sited_skipSymbol.next fun b => .ite ?_ (sited_privilegeTable t)
  refine sited_skipSymbol.next fun b => .ite (.pure trivial) ?_
  exact sited_current.any.next fun u => sited_advance.next fun _ => sited_privilegeTable u

theorem sited_principal? : SitedAny d sql principal? := by
  refine sited_current.any.next fun t => ?_
  split
  · exact sited_advance.next fun _ => .pure trivial
  · exact .pure trivial

theorem sited_access (kind : AccessKind) : SitedAny d sql (access rule kind) := by
  have hprivilege : SitedAny d sql (do
      privilegeTarget rule
      return none : Parser Findings (Option Principal)) :=
    sited_privilegeTarget.next fun _ => .pure trivial
  cases kind with
  | grant | revoke | deny => exact hprivilege
  | create | alter | drop | rename => exact sited_principal?

theorem sited_accessStatement (first : Keyword) : SitedAny d sql (accessStatement rule first) := by
  unfold accessStatement
  split
  · exact (sited_access _).inside.any.next fun _ => .pure trivial
  · exact SitedFirst.refusal.sited

theorem sitedFirst_transactionStatement (kind : TransactionKind) :
    SitedFirst d sql (transactionStatement kind) :=
  .step (.pure trivial)

theorem sited_shown : SitedAny d sql shown := by
  have hsource : SitedAny d sql skipSource := sited_skipIf
  have htable (kind : AdministrationKind) : SitedAny d sql (do
      let _ ← skipSource
      bareTable
      return kind) :=
    hsource.next fun _ => sited_bareTable.next fun _ => .pure trivial
  refine sited_skipKeyword.next fun _ => sited_skipKeyword.next fun b => .ite (.pure trivial) ?_
  refine sited_skipKeyword.next fun b => .ite ?_ (sited_skipIf.next fun b => .ite (htable _) ?_)
  · exact hsource.next fun b => .ite (sited_nameHere.next fun _ => .pure trivial) (.pure trivial)
  · refine sited_skipKeyword.next fun b => .ite ?_ (sited_skipIf.next fun b => ?_)
    · exact sited_expect.next fun _ => sited_bareTable.next fun _ => .pure trivial
    · exact .ite (htable _) (.pure trivial)

theorem sitedFirst_administrationStatement (word : AdministrationWord) :
    SitedFirst d sql (administrationStatement word) := by
  refine (SitedFirst.inside (.step ?_)).bind fun _ => .pure trivial
  cases word with
  | use => exact sited_nameHere.next fun _ => .pure trivial
  | describe => exact sited_bareTable.next fun _ => .pure trivial
  | «show» => exact sited_shown

/-! ## Definitions -/

theorem sited_skipExistence : SitedAny d sql skipExistence := by
  refine sited_skipKeyword.next fun b => .ite ?_ (.pure trivial)
  exact sited_skipKeyword.next fun _ => sited_expect

theorem sited_definedTables : SitedAny d sql definedTables :=
  sited_skipExistence.next fun _ => .discard (.commaSeparated sited_bareTable)

theorem sited_indexHasTable (kind : DefinitionKind) : SitedAny d sql (indexHasTable kind) := by
  unfold indexHasTable
  split
  · exact sited_expect.next fun _ => .pure trivial
  · exact sited_skipKeyword
  · exact .pure trivial

theorem sited_definedIndex (kind : DefinitionKind) : SitedAny d sql (definedIndex kind) := by
  refine sited_skipExistence.next fun _ => sited_current.any.next fun t => ?_
  refine sited_nameHere.next fun name => (sited_indexHasTable kind).next fun b => .ite ?_ ?_
  · exact sited_bareTable.next fun _ => sited_modifyDraft
  · exact sited_modifyDraft

theorem sited_definition (first : Keyword) : SitedAny d sql (definition first) := by
  refine sited_skipUntil.next fun _ => sited_skipKeyword.next fun b => .ite ?_ ?_
  · split
    · exact sited_definedTables.next fun _ => .pure trivial
    · exact SitedFirst.refusal.sited
  · refine sited_isAt.next fun b => .ite ?_ (.failAt fun c hc => ⟨c.current, hc.current, rfl⟩)
    split
    · refine sited_advance.next fun _ => (sited_definedIndex _).next fun _ => ?_
      exact .pure trivial
    · exact SitedFirst.refusal.sited

theorem sited_definitionStatement (first : Keyword) :
    SitedAny d sql (definitionStatement first) :=
  (sited_definition first).inside.any.next fun _ => .pure trivial

/-! ## Whole texts -/

theorem sitedFirst_bySecondWord (first : Keyword) :
    SitedFirst d sql (bySecondWord rule first) := by
  refine .step (sited_current.any.next fun t => .ite (sited_definitionStatement first) (.ite ?_ ?_))
  · exact sited_accessStatement first
  · exact SitedFirst.refusal.sited

theorem sitedFirst_statement : SitedFirst d sql (statement rule catalog) := by
  intro w hw
  apply settles_current.2
  split
  · exact sitedFirst_selectStatement hw
  · exact sitedFirst_insertStatement hw
  · exact sitedFirst_updateStatement hw
  · exact sitedFirst_deleteStatement hw
  · exact sitedFirst_transactionStatement _ hw
  · exact sitedFirst_transactionStatement _ hw
  · exact sitedFirst_transactionStatement _ hw
  · exact sitedFirst_transactionStatement _ hw
  · exact sitedFirst_transactionStatement _ hw
  · exact sitedFirst_administrationStatement _ hw
  · exact sitedFirst_administrationStatement _ hw
  · exact sitedFirst_administrationStatement _ hw
  · exact sitedFirst_administrationStatement _ hw
  · exact sitedFirst_bySecondWord _ hw
  · exact SitedFirst.refusal hw

theorem settles_text : Settles ⟨Cursor.ofText d sql, ()⟩ (text rule catalog) (fun _ _ => True)
    (Fault.SitedIn d sql) := by
  have hfirst : Settles ⟨Cursor.ofText d sql, ()⟩ advance
      (fun _ (v : Workspace Unit) => v.cursor.StandsOn d sql) (Fault.SitedIn d sql) := by
    apply settles_cursor.2
    cases hc : (Cursor.ofText d sql).advance with
    | ok c => exact Cursor.ofText_standsOn hc
    | error fault => exact Cursor.advance_fault rfl hc
  exact hfirst.bind fun _ _ h => (sitedFirst_statement h).mono fun _ _ _ => trivial

end Reading

theorem parse_sited {fault : Fault} (h : parse d rule catalog sql = .error fault) :
    fault.SitedIn d sql := by
  have hrun : Settles ⟨Cursor.ofText d sql, ()⟩ (Reading.text rule catalog) (fun _ _ => True)
    (Fault.SitedIn d sql) := Reading.settles_text
  unfold Settles at hrun
  unfold parse at h
  cases hr : Reading.text rule catalog ⟨Cursor.ofText d sql, ()⟩ with
  | ok s v =>
    rw [hr] at h
    cases h
  | error e v =>
    rw [hr] at h hrun
    obtain rfl := Except.error.inj h
    exact hrun

/-- A fault that is sited in a text has its place in it. -/
theorem Fault.SitedIn.le_length {fault : Fault} {n : ℕ} (h : fault.SitedIn d sql)
    (hn : fault.offset? = some n) : n ≤ sql.length := by
  have hstart : ∀ n, (∃ t, IsTokenOf d sql t ∧ n = t.start) → n ≤ sql.length := by
    rintro n ⟨t, ht, rfl⟩
    exact ht.start_le_stop.trans ht.stop_le_length
  cases fault with
  | lexical m cause =>
    obtain rfl := Option.some.inj hn
    have hle := (TokenStream.scan_fault h).2.1
    rwa [Nat.zero_add] at hle
  | malformed m cause =>
    obtain rfl := Option.some.inj hn
    cases cause with
    | columnIndex v =>
      obtain ⟨t, ht, rfl⟩ := h
      exact ht.stop_le_length
    | _ => exact hstart _ h
  | unsupported m cause =>
    obtain rfl := Option.some.inj hn
    exact hstart _ h
  | _ => cases hn

/-- The place of a fault is in the text. It is where no token begins, behind all tokens that have
been cut, or the start of a token; for a wrong column index it is the end of one. -/
theorem fault_placed {fault : Fault} (h : parse d rule catalog sql = .error fault) :
    fault.SitedIn d sql ∧ (∀ n, fault.offset? = some n → n ≤ sql.length) ∧
      ∀ n cause, fault = .lexical n cause →
        ∀ t ∈ (TokenStream.ofText d sql.toList).tokens, t.stop ≤ n := by
  have hsited := parse_sited h
  refine ⟨hsited, fun n => hsited.le_length, ?_⟩
  rintro n cause rfl
  exact (TokenStream.scan_fault hsited).2.2

/-- The first column is the column 1. The place of another number is behind it, at the end of the
text here. -/
theorem fault_placed_columnIndex :
    ∃ fault, parse .mysql ⟨[], none⟩ ⟨[]⟩ "SELECT a FROM t ORDER BY 0" = .error fault ∧
      fault = .malformed 26 (.columnIndex (.integer 0)) ∧
      ∃ t, IsTokenOf .mysql "SELECT a FROM t ORDER BY 0" t ∧ 26 = t.stop := by
  have hfault : (parse .mysql ⟨[], none⟩ ⟨[]⟩ "SELECT a FROM t ORDER BY 0").map (fun _ => ()) =
      .error (.malformed 26 (.columnIndex (.integer 0))) := by decide +kernel
  cases h : parse .mysql ⟨[], none⟩ ⟨[]⟩ "SELECT a FROM t ORDER BY 0" with
  | ok s =>
    rw [h] at hfault
    cases hfault
  | error fault =>
    rw [h] at hfault
    obtain rfl := Except.error.inj hfault
    exact ⟨_, rfl, rfl, (fault_placed h).1⟩

end SqlFront

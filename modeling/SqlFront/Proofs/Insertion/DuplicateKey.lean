import SqlFront.Proofs.Insertion.Statement

/-!
# Assignments for duplicate keys

An INSERT may tell what becomes of a row whose key exists already. An assignment to a sharding
column is refused, since it would take the row to another place. Each assignment is checked when it
is read, so the check goes as far as the reading: up to the first value that is not read to its end.
-/

set_option autoImplicit false

namespace SqlFront

open SqlFront.Parser SqlFront.Clause SqlFront.Reading

variable {rule : ShardingRule} {catalog : Catalog} {sql table : String}
  {w v : Workspace InsertStatement} {ts us more tail : List Token}

/-! ## Assignments -/

structure Assignment where
  owner? : Option Token
  name : Token
  value : List Token

namespace Assignment

def column (a : Assignment) (table : String) : Column := ⟨columnTitle a.owner? a.name, table⟩

inductive Spells (a : Assignment) : List Token → Prop
  | intro {us : List Token} {e : Token} : Comparison.SpellsColumn a.owner? a.name us →
      a.name.type ≠ .literal .chars → e.type = .symbol .equal → IsValue a.value →
      Spells a (us ++ e :: a.value)

end Assignment

variable {a b : Assignment} {as : List Assignment}

/-- The assignments that are read: the values of those before them are read to their ends. -/
inductive Checked : List Assignment → Assignment → Prop
  | first {a : Assignment} {as : List Assignment} : Checked (a :: as) a
  | later {a b : Assignment} {as : List Assignment} : Whole b.value → Checked as a →
      Checked (b :: as) a

def IsKeyUpdate (f : Fault) : Prop :=
  ∃ place name, f = .unsupported place (.shardingKeyUpdate name)

structure AssignmentRead (w : Workspace InsertStatement) (a : Assignment) (us more : List Token)
    (v : Workspace InsertStatement) : Prop where
  tables : v.draft.findings.tables = w.draft.findings.tables
  rest : ∃ rest, Level rest ∧ v.cursor.Passes (rest ++ us) more ∧ (rest = [] ↔ Whole a.value)

theorem isName_of_spells (h : Comparison.SpellsColumn a.owner? a.name us) :
    a.name.isName = true := by
  generalize a.owner? = owner? at h
  cases h with
  | alone hn => exact hn
  | owned _ _ hn => exact hn

theorem settles_duplicateKeyAssignment (hs : a.Spells ts)
    (hus : endsOperand (us ++ more) = true) (hw : w.cursor.Passes (ts ++ us) more) :
    Settles w (duplicateKeyAssignment rule table)
      (fun _ v => rule.isShardingColumn (a.column table) = false ∧ AssignmentRead w a us more v)
      fun f => rule.isShardingColumn (a.column table) = true ∧ IsKeyUpdate f := by
  obtain @⟨cs, e, hcolumn, hchars, he, hvalue⟩ := hs
  rw [List.append_assoc, List.cons_append] at hw
  have hsign : endsOperand (e :: (a.value ++ us) ++ more) = true := endsOperand_equal he
  have hname : Achieves w (onFindings expression : Parser InsertStatement Expression) fun x v =>
      x = columnExpression a.owner? a.name ∧ v.cursor.Passes (e :: (a.value ++ us)) more ∧
        v.draft.findings.tables = w.draft.findings.tables := by
    apply settles_onFindings.2
    apply (achieves_column (w := ⟨w.cursor, w.draft.findings⟩) hcolumn hw hsign).mono
    rintro x v ⟨hx, hv, hcount⟩
    exact ⟨hx, hv, hcount.tables⟩
  have hread : ∀ v : Workspace InsertStatement, v.cursor.Passes (e :: (a.value ++ us)) more →
      v.draft.findings.tables = w.draft.findings.tables → Achieves v (do
        expectSymbol .equal
        let _ ← onFindings expression) fun (_ : Unit) x => AssignmentRead w a us more x := by
    intro v hv htables
    apply (achieves_expect hv he).bind
    intro _ v₁ h₁
    have hexpression : Achieves v₁ (onFindings expression : Parser InsertStatement Expression)
        fun _ x => AssignmentRead w a us more x := by
      apply settles_onFindings.2
      apply (achieves_read (w := ⟨v₁.cursor, v₁.draft.findings⟩) hvalue.level hvalue.complete
        hvalue.ne_nil hus h₁.passes).mono
      rintro _ x ⟨taken, rest, -, ⟨hl, hp, hcount⟩, -, hwhole⟩
      refine ⟨?_, rest, hl, hp, hwhole⟩
      rw [← htables, ← h₁.draft]
      exact hcount.tables
    exact hexpression.bind fun _ x hx => Settles.pure hx
  unfold duplicateKeyAssignment
  apply settles_current.2
  apply Settles.bind hname.settles
  rintro x v ⟨rfl, hv, htables⟩
  rw [columnExpression_title a.owner? (isName_of_spells hcolumn) hchars]
  cases hkey : rule.isShardingColumn (a.column table) with
  | true =>
    have hrefuse : rule.isShardingColumn ⟨columnTitle a.owner? a.name, table⟩ = true := hkey
    simp only [hrefuse, if_true]
    exact ⟨trivial, _, _, rfl⟩
  | false =>
    have hkeep : rule.isShardingColumn ⟨columnTitle a.owner? a.name, table⟩ = false := hkey
    simp only [hkeep]
    exact (hread v hv htables).settles.mono fun _ x hx => ⟨trivial, hx⟩

/-- Inside of a value no comma stands in front. -/
theorem AssignmentRead.stays (h : AssignmentRead w a us more v)
    (hstop : Whole a.value → frontType (us ++ more) ≠ .symbol .comma) :
    v.cursor.isAtAny [.symbol .comma] = false := by
  obtain ⟨rest, hl, hv, hwhole⟩ := h.rest
  rw [hv.isAtAny]
  cases rest with
  | nil => simpa using hstop (hwhole.1 rfl)
  | cons t rest => simpa using hl.front_ne.1

/-! ## The clause -/

def Unrefused (rule : ShardingRule) (table : String) (as : List Assignment) : Prop :=
  ∀ a, Checked as a → rule.isShardingColumn (a.column table) = false

def Refused (rule : ShardingRule) (table : String) (as : List Assignment) (f : Fault) : Prop :=
  (∃ a, Checked as a ∧ rule.isShardingColumn (a.column table) = true) ∧ IsKeyUpdate f

theorem unrefused_cons (ha : rule.isShardingColumn (a.column table) = false)
    (has : Whole a.value → Unrefused rule table as) : Unrefused rule table (a :: as) := by
  intro b hb
  cases hb with
  | first => exact ha
  | later hwhole hb => exact has hwhole b hb

theorem settles_assignments (hs : Joined (.symbol .comma) Assignment.Spells as ts)
    (hus : endsOperand (us ++ more) = true) (hcomma : frontType (us ++ more) ≠ .symbol .comma)
    {k : ℕ} (hk : as.length ≤ k) {bs : List Unit} (hw : w.cursor.Passes (ts ++ us) more) :
    Settles w (repeatFor (listRound (.symbol .comma) (duplicateKeyAssignment rule table)) k bs)
      (fun _ v => v.draft.findings.tables = w.draft.findings.tables ∧ Unrefused rule table as)
      (Refused rule table as) := by
  -- By induction on the assignments. If a value is not read to its end, no comma follows and the
  -- reading of the list ends there.
  induction hs generalizing k bs w with
  | @single a ts ha =>
    obtain ⟨k, rfl⟩ := Nat.exists_eq_add_of_le' hk
    rw [List.length_singleton, repeatFor_listRound]
    refine Settles.bind ((settles_duplicateKeyAssignment ha hus hw).faults ?_) ?_
    · exact fun f hf => ⟨⟨a, .first, hf.1⟩, hf.2⟩
    · rintro _ v ⟨hkeep, hv⟩
      have hat := hv.stays fun _ => hcomma
      apply (settles_bind_ok (skipIf_ok.2 ⟨hat, rfl⟩)).2
      exact Settles.pure ⟨hv.tables, unrefused_cons hkeep fun _ b hb => nomatch hb⟩
  | @cons a as s ts rest ha hsep has ih =>
    obtain ⟨k, rfl⟩ := Nat.exists_eq_add_of_le' hk
    have hend : endsOperand (s :: (rest ++ us) ++ more) = true := endsOperand_comma hsep
    rw [List.length_cons, ← Nat.add_assoc, repeatFor_listRound]
    rw [List.append_assoc, List.cons_append] at hw
    refine Settles.bind ((settles_duplicateKeyAssignment ha hend hw).faults ?_) ?_
    · exact fun f hf => ⟨⟨a, .first, hf.1⟩, hf.2⟩
    rintro _ v ⟨hkeep, hv⟩
    by_cases hwhole : Whole a.value
    · obtain ⟨behind, -, hp, hbehind⟩ := hv.rest
      obtain rfl := hbehind.2 hwhole
      apply settles_skipIf hp (by simp [hsep])
      intro v₁ h₁
      have hrest := @ih _ (k + as.length) (by omega) (bs ++ [()]) h₁.passes
      rw [if_pos rfl]
      apply (hrest.mono ?_).faults
      · rintro f ⟨⟨b, hb, hkey⟩, hf⟩
        exact ⟨⟨b, .later hwhole hb, hkey⟩, hf⟩
      · rintro _ x ⟨htables, has⟩
        refine ⟨?_, unrefused_cons hkeep fun _ => has⟩
        rw [htables, h₁.draft, hv.tables]
    · have hat := hv.stays fun h => (hwhole h).elim
      apply (settles_bind_ok (skipIf_ok.2 ⟨hat, rfl⟩)).2
      exact Settles.pure ⟨hv.tables, unrefused_cons hkeep fun h => (hwhole h).elim⟩

inductive SpellsUpdate (as : List Assignment) : List Token → Prop
  | intro {o d k u : Token} {ts : List Token} : o.type = .keyword .ON →
      d.type = .keyword .DUPLICATE → k.type = .keyword .KEY → u.type = .keyword .UPDATE →
      Joined (.symbol .comma) Assignment.Spells as ts → SpellsUpdate as (o :: d :: k :: u :: ts)

structure EndsUpdate (tail : List Token) : Prop where
  operand : endsOperand tail = true
  comma : frontType tail ≠ .symbol .comma

theorem settles_duplicateKeyClause (hs : SpellsUpdate as ts) (htail : EndsUpdate tail)
    (hgrammar : w.cursor.dialect.grammar.onDuplicateKey = true)
    (htable : w.draft.findings.tables.singleName? = some table) (hw : w.cursor.Passes ts tail) :
    Settles w (duplicateKeyClause rule)
      (fun _ v => v.draft.findings.tables = w.draft.findings.tables ∧ Unrefused rule table as)
      (Refused rule table as) := by
  obtain @⟨o, d, k, u, ts, ho, hd, hk, hu, has⟩ := hs
  unfold duplicateKeyClause
  apply settles_grammar.2
  rw [if_pos hgrammar]
  apply settles_skipIf hw (by simp [ho])
  intro v₁ h₁
  rw [if_pos rfl]
  apply (achieves_expect h₁.passes hd).bind
  intro _ v₂ h₂
  apply (achieves_expect h₂.passes hk).bind
  intro _ v₃ h₃
  apply (achieves_expect h₃.passes hu).bind
  intro _ v₄ h₄
  have hdraft : v₄.draft = w.draft := by rw [h₄.draft, h₃.draft, h₂.draft, h₁.draft]
  apply settles_singleTable (hdraft ▸ htable)
  have hpass : v₄.cursor.Passes (ts ++ []) tail := by simpa using h₄.passes
  have hmoves := hpass.length_lt_moves
  rw [List.append_nil] at hmoves
  have hlength := has.length_le
  have hend : endsOperand ([] ++ tail) = true := htail.operand
  have hcomma : frontType ([] ++ tail) ≠ .symbol .comma := htail.comma
  have hread := fun bs =>
    @settles_assignments rule table v₄ ts [] tail as has hend hcomma v₄.cursor.moves (by omega) bs
      hpass
  apply (hread []).bind
  rintro _ v ⟨htables, hkeep⟩
  exact Settles.pure ⟨by rw [htables, hdraft], hkeep⟩

/-! ## The statement -/

def insertionRows (rule : ShardingRule) (catalog : Catalog) : Parser InsertStatement Unit := do
  advance
  intoClause
  columnList rule catalog
  refuseIf [.keyword .SELECT, .symbol .leftParen]
  valuesClause rule
  insertAssignments rule

theorem insertion_eq (rule : ShardingRule) (catalog : Catalog) : insertion rule catalog = (do
    insertionRows rule catalog
    duplicateKeyClause rule
    completeKey rule) := by
  simp only [insertion, insertionRows, bind_assoc]

theorem insertionRows_reaches (h : insertionRows rule catalog w = .ok () v) :
    w.cursor.Reaches v.cursor := by
  have hsplit : insertionRows rule catalog = (do
      insertionHead rule catalog
      valuesClause rule
      insertAssignments rule) := by
    simp only [insertionRows, insertionHead, bind_assoc]
  rw [hsplit] at h
  obtain ⟨_, w₁, hhead, h⟩ := bind_ok.1 h
  have hrest : Follows (InsertProgress rule (fun _ => True) True) (do
      valuesClause rule
      insertAssignments rule) :=
    valuesClause_progress.bind fun _ => insertAssignments_progress
  exact (insertionHead_reaches hhead).trans (hrest h).found.reaches

def behindRows? (rule : ShardingRule) (catalog : Catalog) (sql : String) :
    Option (String × List Token) :=
  match (Cursor.ofText .mysql sql).advance with
  | .ok c =>
    if c.current.type = .keyword .INSERT then
      match insertionRows rule catalog ⟨c, {}⟩ with
      | .ok _ v => v.draft.findings.tables.singleName?.map fun table => (table, v.cursor.rest)
      | .error _ _ => none
    else none
  | .error _ => none

theorem behindRows?_eq_some {rest : List Token}
    (h : behindRows? rule catalog sql = some (table, rest)) : ∃ c v,
    (Cursor.ofText .mysql sql).advance = .ok c ∧ c.current.type = .keyword .INSERT ∧
      insertionRows rule catalog ⟨c, {}⟩ = .ok () v ∧
      v.draft.findings.tables.singleName? = some table ∧ v.cursor.rest = rest := by
  unfold behindRows? at h
  split at h
  · next c hc =>
    split at h
    · next hins =>
      split at h
      · next v hv =>
        obtain ⟨name, hname, heq⟩ := Option.map_eq_some_iff.1 h
        obtain ⟨rfl, hrest⟩ := Prod.mk.inj heq
        exact ⟨c, v, hc, hins, hv, hname, hrest⟩
      · cases h
    · cases h
  · cases h

theorem passes_behindRows {c : Cursor} (hc : (Cursor.ofText .mysql sql).advance = .ok c)
    (hrun : insertionRows rule catalog ⟨c, {}⟩ = .ok () v) (hrest : v.cursor.rest = ts ++ tail)
    (hend : tail = [] → ∃ t, (TokenStream.ofText .mysql sql.toList).ending = .ok t) :
    v.cursor.Passes ts tail := by
  have hreach := insertionRows_reaches hrun
  obtain ⟨us, -, hus⟩ := (Cursor.ofText_faces hc).reaches hreach
  refine ⟨⟨hus.ending, Or.inl hrest⟩, fun hnil => ?_⟩
  rw [hreach.ending, Cursor.advance_ending hc]
  exact hend hnil

theorem parse_update (h : behindRows? rule catalog sql = some (table, ts ++ tail))
    (hs : SpellsUpdate as ts) (htail : EndsUpdate tail)
    (hend : tail = [] → ∃ t, (TokenStream.ofText .mysql sql.toList).ending = .ok t) :
    (∃ s, parse .mysql rule catalog sql = .ok s ∧ Unrefused rule table as) ∨
      ∃ f, parse .mysql rule catalog sql = .error f ∧ Refused rule table as f := by
  obtain ⟨c, v, hc, hins, hrun, htable, hrest⟩ := behindRows?_eq_some h
  have hv := passes_behindRows hc hrun hrest hend
  have hgrammar : v.cursor.dialect.grammar.onDuplicateKey = true := by
    rw [(insertionRows_reaches hrun).dialect, Cursor.advance_dialect hc]
    rfl
  have hread : Settles ⟨c, {}⟩ (insertion rule catalog) (fun _ _ => Unrefused rule table as)
      (Refused rule table as) := by
    rw [insertion_eq]
    apply (settles_bind_ok hrun).2
    apply (settles_duplicateKeyClause hs htail hgrammar htable hv).bind
    rintro _ x ⟨htables, hkeep⟩
    unfold completeKey
    apply settles_singleTable (htables ▸ htable)
    cases rule.generatedKey? table <;> exact hkeep
  rcases parse_of_settles (settles_insertWord hc hins hread) with ⟨s, _, ⟨_, hkeep, -⟩, hp⟩ | hf
  · exact Or.inl ⟨_, hp, hkeep⟩
  · obtain ⟨f, hf, hp⟩ := hf
    exact Or.inr ⟨f, hp, hf⟩

/-- An accepted text assigns nothing to a sharding column, and any other text is refused as one
that does. -/
structure KeepsRowPlaces (rule : ShardingRule) (catalog : Catalog) (sql table : String)
    (as : List Assignment) : Prop where
  accepted (s : Statement) : parse .mysql rule catalog sql = .ok s →
    ∀ a ∈ as, rule.isShardingColumn (a.column table) = false
  refused : (∃ a ∈ as, rule.isShardingColumn (a.column table) = true) →
    ∃ f, parse .mysql rule catalog sql = .error f ∧ IsKeyUpdate f

/-- Rows keep their places exactly if no assignment is to a sharding column, or if there is such an
assignment among those up to the first value that is not read to its end. -/
theorem row_places_kept_iff (h : behindRows? rule catalog sql = some (table, ts ++ tail))
    (hs : SpellsUpdate as ts) (htail : EndsUpdate tail)
    (hend : tail = [] → ∃ t, (TokenStream.ofText .mysql sql.toList).ending = .ok t) :
    KeepsRowPlaces rule catalog sql table as ↔
      ((∃ a ∈ as, rule.isShardingColumn (a.column table) = true) →
        ∃ a, Checked as a ∧ rule.isShardingColumn (a.column table) = true) := by
  rcases parse_update h hs htail hend with ⟨s, hp, hkeep⟩ | ⟨f, hp, hchecked, hf⟩
  · constructor
    · intro hk hkey
      obtain ⟨f, hf, -⟩ := hk.refused hkey
      rw [hp] at hf
      cases hf
    · intro himp
      have hnone : ¬∃ a ∈ as, rule.isShardingColumn (a.column table) = true := by
        intro hkey
        obtain ⟨a, ha, hsharding⟩ := himp hkey
        rw [hkeep a ha] at hsharding
        cases hsharding
      exact ⟨fun _ _ a ha => by simpa using fun h => hnone ⟨a, ha, h⟩, fun hkey => (hnone hkey).elim⟩
  · constructor
    · exact fun _ _ => hchecked
    · intro _
      refine ⟨fun s hs => ?_, fun _ => ⟨f, hp, hf⟩⟩
      rw [hp] at hs
      cases hs

theorem row_places_kept_iff_second : KeepsRowPlaces
    ⟨[("t_order", ⟨["user_id"], some "order_id"⟩)], none⟩ ⟨[]⟩
    "INSERT INTO t_order (status) VALUES (1) ON DUPLICATE KEY UPDATE status = 3, user_id = 5"
    "t_order" [⟨none, ⟨.literal .identifier, "status", 64, 70⟩, [⟨.literal .int, "3", 73, 74⟩]⟩,
      ⟨none, ⟨.literal .identifier, "user_id", 76, 83⟩, [⟨.literal .int, "5", 86, 87⟩]⟩] := by
  have hassignment : ∀ name e value : Token, name.type = .literal .identifier →
      e.type = .symbol .equal → value.type = .literal .int →
      Assignment.Spells ⟨none, name, [value]⟩ ([name] ++ e :: [value]) := by
    intro name e value hname he hvalue
    exact .intro (.alone (by simp [Token.isName, hname])) (by simp [hname]) he
      (.token (by rw [hvalue]; decide))
  have hs := SpellsUpdate.intro (o := ⟨.keyword .ON, "ON", 40, 42⟩)
    (d := ⟨.keyword .DUPLICATE, "DUPLICATE", 43, 52⟩) (k := ⟨.keyword .KEY, "KEY", 53, 56⟩)
    (u := ⟨.keyword .UPDATE, "UPDATE", 57, 63⟩) rfl rfl rfl rfl
    (.cons (hassignment ⟨.literal .identifier, "status", 64, 70⟩ ⟨.symbol .equal, "=", 71, 72⟩
      ⟨.literal .int, "3", 73, 74⟩ rfl rfl rfl) (s := ⟨.symbol .comma, ",", 74, 75⟩) rfl
      (.single (hassignment ⟨.literal .identifier, "user_id", 76, 83⟩
        ⟨.symbol .equal, "=", 84, 85⟩ ⟨.literal .int, "5", 86, 87⟩ rfl rfl rfl)))
  have htail : EndsUpdate [] := ⟨rfl, by decide⟩
  refine (row_places_kept_iff (by decide +kernel) hs htail
    (fun _ => ⟨Token.atEnd 87, by decide +kernel⟩)).2 fun _ => ⟨_, .later ?_ .first, ?_⟩
  · exact .word (by decide) (by decide) (.chain .nil)
  · decide +kernel

/-- Behind `VALUES(a)-1` an assignment to a sharding column is accepted. -/
theorem sharding_column_behind_difference :
    (∃ ts, behindRows? ⟨[("t", ⟨["b"], none⟩)], none⟩ ⟨[]⟩
        "INSERT INTO t (a) VALUES (1) ON DUPLICATE KEY UPDATE a = VALUES(a)-1, b = 5" =
          some ("t", ts) ∧
      SpellsUpdate [⟨none, ⟨.literal .identifier, "a", 53, 54⟩,
          [⟨.keyword .VALUES, "VALUES", 57, 63⟩, ⟨.symbol .leftParen, "(", 63, 64⟩,
            ⟨.literal .identifier, "a", 64, 65⟩, ⟨.symbol .rightParen, ")", 65, 66⟩,
            ⟨.literal .int, "-1", 66, 68⟩]⟩,
        ⟨none, ⟨.literal .identifier, "b", 70, 71⟩, [⟨.literal .int, "5", 74, 75⟩]⟩] ts) ∧
    ¬KeepsRowPlaces ⟨[("t", ⟨["b"], none⟩)], none⟩ ⟨[]⟩
      "INSERT INTO t (a) VALUES (1) ON DUPLICATE KEY UPDATE a = VALUES(a)-1, b = 5" "t"
      [⟨none, ⟨.literal .identifier, "a", 53, 54⟩,
          [⟨.keyword .VALUES, "VALUES", 57, 63⟩, ⟨.symbol .leftParen, "(", 63, 64⟩,
            ⟨.literal .identifier, "a", 64, 65⟩, ⟨.symbol .rightParen, ")", 65, 66⟩,
            ⟨.literal .int, "-1", 66, 68⟩]⟩,
        ⟨none, ⟨.literal .identifier, "b", 70, 71⟩, [⟨.literal .int, "5", 74, 75⟩]⟩] := by
  have hvalue : IsValue [⟨.keyword .VALUES, "VALUES", 57, 63⟩, ⟨.symbol .leftParen, "(", 63, 64⟩,
      ⟨.literal .identifier, "a", 64, 65⟩, ⟨.symbol .rightParen, ")", 65, 66⟩,
      ⟨.literal .int, "-1", 66, 68⟩] := by
    refine ⟨by simp, ?_, .of_last (by decide) (by decide)⟩
    refine .token (by decide) (by decide) (by decide) (by decide) ?_
    exact .group rfl (.token (by decide) (by decide) (by decide) (.last rfl))
      (.token (by decide) (by decide) (by decide) (by decide) .nil)
  have hs := SpellsUpdate.intro (o := ⟨.keyword .ON, "ON", 29, 31⟩)
    (d := ⟨.keyword .DUPLICATE, "DUPLICATE", 32, 41⟩) (k := ⟨.keyword .KEY, "KEY", 42, 45⟩)
    (u := ⟨.keyword .UPDATE, "UPDATE", 46, 52⟩) rfl rfl rfl rfl
    (.cons (.intro (a := ⟨none, ⟨.literal .identifier, "a", 53, 54⟩, _⟩) (.alone rfl)
        (by decide) (e := ⟨.symbol .equal, "=", 55, 56⟩) rfl hvalue)
      (s := ⟨.symbol .comma, ",", 68, 69⟩) rfl
      (.single (.intro (a := ⟨none, ⟨.literal .identifier, "b", 70, 71⟩, _⟩) (.alone rfl)
        (by decide) (e := ⟨.symbol .equal, "=", 72, 73⟩) rfl
        (.token (t := ⟨.literal .int, "5", 74, 75⟩) (by decide)))))
  obtain ⟨s, hp, -⟩ := parse_of_view .mysql
    ⟨[("t", ⟨["b"], none⟩)], none⟩ ⟨[]⟩
    "INSERT INTO t (a) VALUES (1) ON DUPLICATE KEY UPDATE a = VALUES(a)-1, b = 5" (fun _ => ()) ()
    (by decide +kernel)
  refine ⟨⟨_, by decide +kernel, hs⟩, fun h => ?_⟩
  have hkeep := h.accepted s hp _ (List.mem_cons_of_mem _ List.mem_cons_self)
  revert hkeep
  decide +kernel

end SqlFront

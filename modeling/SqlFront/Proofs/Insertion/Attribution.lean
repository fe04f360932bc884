import SqlFront.Proofs.Insertion.Statement

/-!
# Columns and values of INSERT

An INSERT with a written column list gives the values of its rows to these columns in order, and a
row of another length is a syntax failure. The exception is a row that is too short for a list
with the generated key: this column is taken away as if the catalog had given the list.
-/

set_option autoImplicit false

namespace SqlFront

open SqlFront.Parser SqlFront.Clause SqlFront.Reading

variable {d : Dialect} {rule : ShardingRule} {catalog : Catalog} {name : String}
  {table : Token} {listed : List (Option Token × Token)} {rows : List (List (List Token))}
  {w v : Workspace InsertStatement} {ts us more tail : List Token}

/-! ## The text -/

inductive SpellsInsert (d : Dialect) (table : Token) (listed : List (Option Token × Token))
    (rows : List (List (List Token))) : List Token → Prop
  | intro {i n l r v : Token} {cs rs : List Token} : i.type = .keyword .INSERT →
      n.type = .keyword .INTO → l.type = .symbol .leftParen →
      Joined (.symbol .comma) SpellsListed listed cs → r.type = .symbol .rightParen →
      v.type ∈ keywordTypes (.VALUES :: d.grammar.valuesSynonyms) →
      Joined (.symbol .comma) SpellsRow rows rs →
      SpellsInsert d table listed rows (i :: n :: table :: l :: (cs ++ r :: v :: rs))

def listedColumns (name : String) (listed : List (Option Token × Token)) : List Column :=
  listed.map (listedColumn name)

/-- Every row has a value for every listed column, and the conditions and the generated keys of
the statement are those that the rows give to the listed columns in order. -/
structure Attributed (rule : ShardingRule) (name : String) (listed : List (Option Token × Token))
    (rows : List (List (List Token))) (s : InsertStatement) : Prop where
  length : ∀ vs ∈ rows, vs.length = listed.length
  columns : s.columns = listedColumns name listed
  conditions : s.findings.conditions = ⟨(rowsValues? 0 rows).map fun values =>
    ⟨rowConditions rule (listedColumns name listed) values⟩⟩
  keys : s.generatedKeys = (rowsValues? 0 rows).flatMap
    (rowKeys (rule.generatedKey? name) (listedColumns name listed))

def LacksKeyValue (rule : ShardingRule) (name : String) (listed : List (Option Token × Token))
    (rows : List (List (List Token))) : Prop :=
  namesKey (rule.generatedKey? name) (listedColumns name listed) = true ∧
    ∃ vs ∈ rows, vs.length < listed.length

/-- Every row that gives the generated key a value gives it a literal or a placeholder. -/
def GivesKeys (rule : ShardingRule) (name : String) (listed : List (Option Token × Token))
    (rows : List (List (List Token))) : Prop :=
  ∀ vs ∈ rows, GivesKey (rule.generatedKey? name) (listedColumns name listed) (rowValues? 0 vs)

/-! ## Behind the rows -/

structure KeepsColumns (N : Cursor → Prop) (T : Prop) (w v : Workspace InsertStatement) : Prop
    extends KeepsRows N T w v where
  columns : v.draft.columns = w.draft.columns

instance (N : Cursor → Prop) (T : Prop) : Course N T False (KeepsColumns N T) where
  trans h₁ h₂ := ⟨Course.trans h₁.toKeepsRows h₂.toKeepsRows, h₂.columns.trans h₁.columns⟩
  lift h := ⟨Course.lift h, rfl⟩

theorem completeKey_keeps {N : Cursor → Prop} {T : Prop} :
    Follows (KeepsColumns N T) (completeKey rule) := by
  intro w u w' h
  have hrows : KeepsRows N T w w' := completeKey_progress h
  obtain ⟨name, w₁, ht, h⟩ := bind_ok.1 h
  have h₁ : KeepsColumns N T w w₁ := follows_insertTable ht
  refine ⟨hrows, ?_⟩
  rw [← h₁.columns]
  cases hk : rule.generatedKey? name with
  | none =>
    rw [hk] at h
    obtain ⟨-, rfl⟩ := pure_ok.1 h
    rfl
  | some key =>
    rw [hk] at h
    obtain rfl := modifyDraft_ok.1 h
    dsimp only
    split <;> rfl

def behindRows (rule : ShardingRule) : Parser InsertStatement Unit := do
  duplicateKeyClause rule
  completeKey rule

theorem behindRows_keeps {N : Cursor → Prop} {T : Prop} :
    Follows (KeepsColumns N T) (behindRows rule) :=
  follows_duplicateKeyClause.bind fun _ => completeKey_keeps

theorem Attributed.keeps {N : Cursor → Prop} {T : Prop}
    (h : Attributed rule name listed rows w.draft) (hv : KeepsColumns N T w v) :
    Attributed rule name listed rows v.draft := by
  have hconditions : v.draft.findings.conditions = w.draft.findings.conditions :=
    hv.found.conditions_eq
  constructor
  · exact h.length
  · rw [hv.columns, h.columns]
  · rw [hconditions, h.conditions]
  · rw [hv.keys, h.keys]

/-! ## The statement -/

theorem RowsRead.attributed (hw : TargetRead name (listedColumns name listed) w)
    (h : RowsRead rule name w rows v) : Attributed rule name listed rows v.draft := by
  have hlength := h.length
  have hadded := h.added
  rw [hw.columns] at hlength hadded
  rw [hw.placeholders] at hadded
  constructor
  · simpa [listedColumns] using hlength
  · rw [hadded.columns, hw.columns]
  · have hgroups := hadded.groups
    rw [hw.conditions] at hgroups
    generalize v.draft.findings.conditions = cs at hgroups ⊢
    cases cs
    simpa [Conditions.empty] using hgroups
  · rw [hadded.keys, hw.keys, List.nil_append]

def RowFault (rule : ShardingRule) (name : String) (listed : List (Option Token × Token))
    (rows : List (List (List Token))) (f : Fault) : Prop :=
  (∃ place cause, f = .malformed place cause) ∨ ¬GivesKeys rule name listed rows ∨
    ∀ vs ∈ rows, vs.length = listed.length

theorem settles_valuesClause {values : Token} {rs : List Token} (hlisted : listed ≠ [])
    (hvalues : values.type ∈ keywordTypes (.VALUES :: w.cursor.dialect.grammar.valuesSynonyms))
    (hrows : Joined (.symbol .comma) SpellsRow rows rs) (htail : EndsRows tail)
    (hkey : ¬LacksKeyValue rule name listed rows)
    (hw : w.cursor.Passes (values :: rs) tail)
    (hI : TargetRead name (listedColumns name listed) w) :
    Settles w (valuesClause rule) (fun _ v => v.cursor.Passes [] tail ∧
      Attributed rule name listed rows v.draft) (RowFault rule name listed rows) := by
  have hfit : Fitting rule name w.draft.columns rows (RowFault rule name listed rows) := by
    rw [hI.columns]
    constructor
    · simpa [listedColumns] using hlisted
    · intro hnames vs hmem
      by_contra hlt
      exact hkey ⟨hnames, vs, hmem, by simpa [listedColumns] using hlt⟩
    · exact fun place cause => Or.inl ⟨place, cause, rfl⟩
    · rintro f ⟨vs, hmem, hnot⟩
      exact Or.inr (Or.inl fun hall => hnot (hall vs hmem))
  apply (settles_rows hvalues hrows htail hI.tables hfit.invariant hw .nil).mono
  rintro _ x ⟨hx, h⟩
  exact ⟨hx, h.attributed hI⟩

theorem settles_insertion {listed : List (Option Token × Token)}
    (hs : SpellsInsert w.cursor.dialect table listed rows ts)
    (htail : EndsRows tail) (hset : frontType tail ≠ .keyword .SET)
    (hkey : ¬LacksKeyValue rule (unquoted table.literals) listed rows)
    (hw : w.cursor.Passes ts tail) (hd : w.draft = {}) :
    Settles w (insertion rule catalog) (fun _ v =>
      Attributed rule (unquoted table.literals) listed rows v.draft)
      (RowFault rule (unquoted table.literals) listed rows) := by
  obtain @⟨ins, into, l, r, values, cs, rs, hins, hinto, hl, hcs, hr, hvalues, hrows⟩ := hs
  have hshape : ∀ place cause, RowFault rule (unquoted table.literals) listed rows
      (.malformed place cause) := fun place cause => Or.inl ⟨place, cause, rfl⟩
  unfold insertion
  apply (achieves_advance hw).bind
  intro _ v₁ h₁
  apply Achieves.bind (achieves_intoBeforeList hinto hl h₁.passes (h₁.draft.trans hd)).withRun
  rintro _ v₂ ⟨⟨hv₂, hd₂⟩, hrun₂⟩
  have h₂ := targetDraft_read hd₂
  apply (settles_columnList hl hcs hr hshape hv₂ h₂).withRun.bind
  rintro _ v₃ ⟨⟨hv₃, h₃⟩, hrun₃⟩
  have hdialect : v₃.cursor.dialect = w.cursor.dialect := by
    have hp₂ := intoClause_progress (T := True) trivial insertPlaces_all trivial hrun₂
    have hp₃ := columnList_progress (N := fun _ => False) (T := False) catalog hrun₃
    have hsecond : v₂.cursor.dialect = v₁.cursor.dialect := hp₂.found.reaches.dialect
    have hthird : v₃.cursor.dialect = v₂.cursor.dialect := hp₃.found.reaches.dialect
    rw [hthird, hsecond, Cursor.advance_dialect h₁.advance]
  have hplain : frontType (values :: rs ++ tail) ∉
      [TokenType.keyword .SELECT, .symbol .leftParen] := by
    rw [List.cons_append, frontType_cons]
    exact values_not_refused hvalues
  apply settles_noRefusal hv₃ hplain
  apply (settles_valuesClause hcs.ne_nil (hdialect ▸ hvalues) hrows htail hkey hv₃ h₃).bind
  rintro _ v₄ ⟨hv₄, h₄⟩
  apply (achieves_noAssignments (hv₄.type ▸ hset)).bind
  rintro _ v rfl
  apply settles_of_run (p := behindRows rule)
  · intro u v₅ hrun
    exact h₄.keeps (behindRows_keeps (N := fun _ => False) (T := False) hrun)
  · exact fun _ => Or.inr (Or.inr h₄.length)

theorem SpellsInsert.front (h : SpellsInsert d table listed rows ts) :
    ∃ ins rest, ts = ins :: rest ∧ ins.type = .keyword .INSERT := by
  obtain ⟨hins⟩ := h
  exact ⟨_, _, rfl, hins⟩

theorem Attributed.mapFindings {s : InsertStatement} (h : Attributed rule name listed rows s)
    (es : List Edit) :
    Attributed rule name listed rows { s with findings := { s.findings with edits := es } } :=
  ⟨h.length, h.columns, h.conditions, h.keys⟩

/-- An accepted INSERT with a written column list gives the values of every row to the listed
columns in order, and every row has as many of them, exactly if no row is too short for a list
with the generated key. Without such a row, one of another length is a syntax failure. -/
theorem listed_columns_kept_iff {sql : String}
    (hts : (TokenStream.ofText d sql.toList).tokens = ts ++ tail)
    (hs : SpellsInsert d table listed rows ts) (htail : EndsRows tail)
    (hset : frontType tail ≠ .keyword .SET)
    (hend : tail = [] → ∃ t, (TokenStream.ofText d sql.toList).ending = .ok t) :
    (∀ s, parse d rule catalog sql = .ok s → ∃ i, s = .insert i ∧
      (Attributed rule (unquoted table.literals) listed rows i ↔
        ¬LacksKeyValue rule (unquoted table.literals) listed rows)) ∧
    (¬LacksKeyValue rule (unquoted table.literals) listed rows →
      GivesKeys rule (unquoted table.literals) listed rows →
      (∃ vs ∈ rows, vs.length ≠ listed.length) →
      ∃ place cause, parse d rule catalog sql = .error (.malformed place cause)) := by
  obtain ⟨ins, rest, rfl, hins⟩ := hs.front
  -- Where no key lacks its value, nothing is taken out of the list, and the rows are compared with
  -- the list as it is written.
  have hparse : ¬LacksKeyValue rule (unquoted table.literals) listed rows →
      (∃ i, Attributed rule (unquoted table.literals) listed rows i ∧
        parse d rule catalog sql = .ok (.insert i)) ∨
      ∃ f, RowFault rule (unquoted table.literals) listed rows f ∧
        parse d rule catalog sql = .error f := by
    intro hkey
    have hread : ∀ c, (Cursor.ofText d sql).advance = .ok c →
        Settles ⟨c, {}⟩ (insertion rule catalog)
          (fun _ v => Attributed rule (unquoted table.literals) listed rows v.draft)
          (RowFault rule (unquoted table.literals) listed rows) := by
      intro c hc
      have hfaces := Cursor.ofText_faces hc
      rw [hts] at hfaces
      have hdialect : c.dialect = d := Cursor.advance_dialect hc
      have hp : c.Passes (ins :: rest) tail := by
        refine ⟨hfaces, fun hnil => ?_⟩
        rw [Cursor.advance_ending hc]
        exact hend hnil
      exact settles_insertion (w := ⟨c, {}⟩) (hdialect ▸ hs) htail hset hkey hp rfl
    rcases parse_of_settles (settles_insertText hts hins hread) with ⟨s, -, ⟨v, hv, rfl⟩, hp⟩ | ⟨f, hf, hp⟩
    · exact Or.inl ⟨_, hv.mapFindings _, hp⟩
    · exact Or.inr ⟨f, hf, hp⟩
  constructor
  · intro s hp
    have hinsert : ∃ i, s = .insert i := by
      have hread : ∀ c, (Cursor.ofText d sql).advance = .ok c →
          Settles ⟨c, {}⟩ (insertion rule catalog) (fun _ _ => True) fun _ => True :=
        fun c _ => settles_of_run (by simp) (by simp)
      rcases parse_of_settles (settles_insertText hts hins hread) with ⟨s', -, ⟨v, -, rfl⟩, hp'⟩ | ⟨f, -, hp'⟩
      · rw [hp] at hp'
        exact ⟨_, Except.ok.inj hp'⟩
      · rw [hp] at hp'
        cases hp'
    obtain ⟨i, rfl⟩ := hinsert
    refine ⟨i, rfl, ?_⟩
    constructor
    · rintro h ⟨-, vs, hmem, hlt⟩
      exact absurd (h.length vs hmem) (by omega)
    · intro hkey
      rcases hparse hkey with ⟨i', h, hp'⟩ | ⟨f, -, hp'⟩
      · rw [hp] at hp'
        cases hp'
        exact h
      · rw [hp] at hp'
        cases hp'
  · rintro hkey hgiven ⟨vs, hmem, hne⟩
    rcases hparse hkey with ⟨i, h, -⟩ | ⟨f, ⟨place, cause, rfl⟩ | hnot | hlen, hp⟩
    · exact (hne (h.length vs hmem)).elim
    · exact ⟨place, cause, hp⟩
    · exact (hnot hgiven).elim
    · exact (hne (hlen vs hmem)).elim

theorem listed_columns_kept_iff_key : ∃ i,
    parse .mysql ⟨[("t_order", ⟨["user_id"], some "order_id"⟩)], none⟩ ⟨[]⟩
      "INSERT INTO t_order (user_id, order_id) VALUES (?, 1)" = .ok (.insert i) ∧
    i.columns = [⟨"user_id", "t_order"⟩, ⟨"order_id", "t_order"⟩] ∧
    i.generatedKeys = [⟨⟨"order_id", "t_order"⟩, .number (.integer 1)⟩] ∧
    i.findings.conditions =
      ⟨[⟨[⟨⟨"user_id", "t_order"⟩, .equal, [.placeholder 0]⟩]⟩]⟩ := by
  have hcolumns : Joined (.symbol .comma) SpellsListed
      [(none, ⟨.literal .identifier, "user_id", 21, 28⟩),
        (none, ⟨.literal .identifier, "order_id", 30, 38⟩)] _ :=
    .cons (.alone rfl) (s := ⟨.symbol .comma, ",", 28, 29⟩) rfl (.single (.alone rfl))
  have hrow : SpellsRow [[⟨.symbol .question, "?", 48, 49⟩], [⟨.literal .int, "1", 51, 52⟩]] _ :=
    .filled (.intro (l := ⟨.symbol .leftParen, "(", 47, 48⟩)
      (r := ⟨.symbol .rightParen, ")", 52, 53⟩) rfl
      (.cons ⟨.token (by decide), rfl⟩ (s := ⟨.symbol .comma, ",", 49, 50⟩) rfl
        (.single ⟨.token (by decide), rfl⟩)) rfl)
  have hs : SpellsInsert .mysql ⟨.literal .identifier, "t_order", 12, 19⟩ _ _ _ := .intro
    (i := ⟨.keyword .INSERT, "INSERT", 0, 6⟩) (n := ⟨.keyword .INTO, "INTO", 7, 11⟩)
    (l := ⟨.symbol .leftParen, "(", 20, 21⟩) (r := ⟨.symbol .rightParen, ")", 38, 39⟩)
    (v := ⟨.keyword .VALUES, "VALUES", 40, 46⟩) rfl rfl rfl hcolumns rfl (by decide)
    (.single hrow)
  obtain ⟨s, hparse, -⟩ := parse_of_view .mysql
    ⟨[("t_order", ⟨["user_id"], some "order_id"⟩)], none⟩ ⟨[]⟩
    "INSERT INTO t_order (user_id, order_id) VALUES (?, 1)" (fun _ => ()) () (by decide +kernel)
  have hend : EndsRows [] := ⟨rfl, by decide, by decide⟩
  obtain ⟨i, rfl, hiff⟩ := (listed_columns_kept_iff (by decide +kernel) hs hend (by decide)
    (fun _ => ⟨Token.atEnd 53, by decide +kernel⟩)).1 s hparse
  have hfull : ¬LacksKeyValue ⟨[("t_order", ⟨["user_id"], some "order_id"⟩)], none⟩ "t_order"
      [(none, ⟨.literal .identifier, "user_id", 21, 28⟩),
        (none, ⟨.literal .identifier, "order_id", 30, 38⟩)]
      [[[⟨.symbol .question, "?", 48, 49⟩], [⟨.literal .int, "1", 51, 52⟩]]] := by
    rintro ⟨-, vs, hmem, hlt⟩
    rw [List.mem_singleton] at hmem
    subst hmem
    simp at hlt
  have h := hiff.2 hfull
  exact ⟨i, hparse, h.columns.trans (by decide +kernel), h.keys.trans (by decide +kernel),
    h.conditions.trans (by decide +kernel)⟩

/-- A list with the generated key is shortened to a row, whose only value then is that of another
column. -/
theorem short_row_shifts_values : ∃ (i : InsertStatement) (ts : List Token),
    (TokenStream.ofText .mysql
      "INSERT INTO t_order (order_id, user_id) VALUES (1)".toList).tokens = ts ∧
    SpellsInsert .mysql ⟨.literal .identifier, "t_order", 12, 19⟩
      [(none, ⟨.literal .identifier, "order_id", 21, 29⟩),
        (none, ⟨.literal .identifier, "user_id", 31, 38⟩)]
      [[[⟨.literal .int, "1", 48, 49⟩]]] ts ∧
    parse .mysql ⟨[("t_order", ⟨["user_id"], some "order_id"⟩)], none⟩ ⟨[]⟩
      "INSERT INTO t_order (order_id, user_id) VALUES (1)" = .ok (.insert i) ∧
    i.columns = [⟨"user_id", "t_order"⟩] ∧
    i.findings.conditions =
      ⟨[⟨[⟨⟨"user_id", "t_order"⟩, .equal, [.number (.integer 1)]⟩]⟩]⟩ ∧
    ¬Attributed ⟨[("t_order", ⟨["user_id"], some "order_id"⟩)], none⟩ "t_order"
      [(none, ⟨.literal .identifier, "order_id", 21, 29⟩),
        (none, ⟨.literal .identifier, "user_id", 31, 38⟩)]
      [[[⟨.literal .int, "1", 48, 49⟩]]] i := by
  have hcolumns : Joined (.symbol .comma) SpellsListed
      [(none, ⟨.literal .identifier, "order_id", 21, 29⟩),
        (none, ⟨.literal .identifier, "user_id", 31, 38⟩)] _ :=
    .cons (.alone rfl) (s := ⟨.symbol .comma, ",", 29, 30⟩) rfl (.single (.alone rfl))
  have hrow : SpellsRow [[⟨.literal .int, "1", 48, 49⟩]] _ :=
    .filled (.intro (l := ⟨.symbol .leftParen, "(", 47, 48⟩)
      (r := ⟨.symbol .rightParen, ")", 49, 50⟩) rfl (.single ⟨.token (by decide), rfl⟩) rfl)
  have hs : SpellsInsert .mysql ⟨.literal .identifier, "t_order", 12, 19⟩ _ _ _ := .intro
    (i := ⟨.keyword .INSERT, "INSERT", 0, 6⟩) (n := ⟨.keyword .INTO, "INTO", 7, 11⟩)
    (l := ⟨.symbol .leftParen, "(", 20, 21⟩) (r := ⟨.symbol .rightParen, ")", 38, 39⟩)
    (v := ⟨.keyword .VALUES, "VALUES", 40, 46⟩) rfl rfl rfl hcolumns rfl (by decide)
    (.single hrow)
  obtain ⟨s, hparse, hview⟩ := parse_of_view .mysql
    ⟨[("t_order", ⟨["user_id"], some "order_id"⟩)], none⟩ ⟨[]⟩
    "INSERT INTO t_order (order_id, user_id) VALUES (1)"
    (fun s => (insertion? s).map fun i => (i.columns, i.findings.conditions))
    (some ([⟨"user_id", "t_order"⟩],
      ⟨[⟨[⟨⟨"user_id", "t_order"⟩, .equal, [.number (.integer 1)]⟩]⟩]⟩)) (by decide +kernel)
  obtain ⟨i, hi, hparts⟩ := Option.map_eq_some_iff.1 hview
  obtain rfl := eq_insert_of_insertion? hi
  obtain ⟨hcols, hconditions⟩ := Prod.mk.inj hparts
  refine ⟨i, _, by decide +kernel, hs, hparse, hcols, hconditions, fun h => ?_⟩
  have hlength := h.length _ (List.mem_singleton_self _)
  simp at hlength

end SqlFront

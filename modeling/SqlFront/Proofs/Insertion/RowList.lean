import SqlFront.Proofs.Insertion.Row
import SqlFront.Proofs.Insertion.Target

/-!
# Lists of rows

Rows are read one by one, and each gives its values to the columns of the statement. A row without
values takes the rest of the list for its values, and then its parenthesis is missing.
-/

set_option autoImplicit false

namespace SqlFront

open SqlFront.Parser SqlFront.Clause

variable {rule : ShardingRule} {table : String} {key? : Option String} {cols : List Column}
  {w v : Workspace InsertStatement} {ts us more : List Token} {vs : List (List Token)}
  {rows : List (List (List Token))}

/-! ## Rows without values -/

inductive SpellsRow : List (List Token) → List Token → Prop
  | filled {vs : List (List Token)} {ts : List Token} : SpellsFilled vs ts → SpellsRow vs ts
  | empty {l r : Token} : l.type = .symbol .leftParen → r.type = .symbol .rightParen →
      SpellsRow [] [l, r]

theorem SpellsValues.closes {n : ℕ} (h : SpellsValues vs ts) (hus : Closes n us) :
    Closes n (ts ++ us) := by
  induction h with
  | single hv =>
    obtain ⟨hv, rfl⟩ := hv
    exact hv.level.closes hus
  | @cons v vs s ts ts' hv hs _ ih =>
    obtain ⟨hv, rfl⟩ := hv
    rw [List.append_assoc, List.cons_append]
    exact hv.level.closes (.token (by simp [hs]) (by simp [hs]) (by simp [hs]) ih)

theorem SpellsRow.closes (h : SpellsRow vs ts) :
    ∃ l us, ts = l :: us ∧ l.type = .symbol .leftParen ∧ Closes 0 us := by
  cases h with
  | filled h =>
    obtain @⟨l, r, ts, hl, hvs, hr⟩ := h
    exact ⟨l, ts ++ [r], rfl, hl, hvs.closes (.last hr)⟩
  | empty hl hr => exact ⟨_, _, rfl, hl, .last hr⟩

inductive FurtherRows : List Token → Prop
  | nil : FurtherRows []
  | cons {s : Token} {vs : List (List Token)} {ts us : List Token} : s.type = .symbol .comma →
      SpellsRow vs ts → FurtherRows us → FurtherRows (s :: (ts ++ us))

theorem FurtherRows.append (h : Joined (.symbol .comma) SpellsRow rows ts) (hus : FurtherRows us)
    {s : Token} (hs : s.type = .symbol .comma) : FurtherRows (s :: (ts ++ us)) := by
  induction h generalizing s with
  | single h => exact .cons hs h hus
  | cons h hs' _ ih =>
    rw [List.append_assoc, List.cons_append]
    exact .cons hs h (ih hs')

structure EndsRows (more : List Token) : Prop where
  operand : endsOperand more = true
  comma : frontType more ≠ .symbol .comma
  rightParen : frontType more ≠ .symbol .rightParen

inductive Stray : List Token → Prop
  | token {t : Token} : t.type ≠ .symbol .leftParen → Stray [t]
  | row {vs : List (List Token)} {ts : List Token} : SpellsRow vs ts → Stray ts

theorem strayRule (more : List Token) :
    ItemRule (.symbol .comma) (fun (_ : Unit) ts => Stray ts)
      (onFindings expression : Parser InsertStatement Expression)
      (fun ts => endsOperand ts = true) (fun _ _ _ => True) (fun _ => False) (fun _ => False)
      more := by
  constructor
  · intro _ ts us _ _ v hs hm hv _
    apply settles_onFindings.2
    have hread : Achieves ⟨v.cursor, v.draft.findings⟩ expression fun _ x =>
        x.cursor.Passes us more := by
      apply achieves_owned fun _ _ _ h => h
      cases hs with
      | token ht => exact (achieves_operand hv ht hm).mono fun _ _ h => h.2.1
      | row hrow =>
        obtain ⟨l, ts, rfl, hl, hts⟩ := hrow.closes
        exact (achieves_group hl hts hm hv).mono fun _ _ h => h.1
    exact hread.mono fun _ _ h => Or.inl ⟨h, trivial⟩
  · exact fun _ _ _ _ _ _ _ => trivial
  · intro s _ ts us hs _ _
    exact endsOperand_comma hs
  · exact fun _ h => h.elim

/-- The parenthesis of a row without values and all rows behind it, as values. -/
theorem FurtherRows.joined (h : FurtherRows us) (ht : Stray ts) :
    ∃ xs, Joined (.symbol .comma) (fun (_ : Unit) ts => Stray ts) xs (ts ++ us) := by
  induction h generalizing ts with
  | nil =>
    rw [List.append_nil]
    exact ⟨[()], .single ht⟩
  | cons hs hrow _ ih =>
    obtain ⟨xs, hxs⟩ := ih (.row hrow)
    exact ⟨() :: xs, .cons ht hs hxs⟩

theorem settles_emptyRow {l r : Token} {Q : Unit → Workspace InsertStatement → Prop}
    {F : Fault → Prop} (hl : l.type = .symbol .leftParen) (hr : r.type = .symbol .rightParen)
    (hus : FurtherRows us) (hmore : EndsRows more)
    (hshape : ∀ place cause, F (.malformed place cause))
    (hw : w.cursor.Passes (l :: r :: us) more) : Settles w (valuesRow rule table) Q F := by
  unfold valuesRow
  apply settles_current.2
  apply Achieves.bind (P := fun _ v => v.cursor = w.cursor)
  · apply settles_onFindings.2
    exact rfl
  rintro _ v₁ hc₁
  apply settles_draft.2
  rw [← hc₁] at hw
  apply (achieves_expect hw hl).bind
  intro _ v₂ h₂
  obtain ⟨xs, hxs⟩ := hus.joined (.token (t := r) (by simp [hr]))
  have hp : v₂.cursor.Passes (([r] ++ us) ++ []) more := by simpa using h₂.passes
  have hend : endsOperand ([] ++ more) = true := hmore.operand
  have hread := (strayRule more).separated hend hmore.comma hxs hp trivial
  apply Achieves.bind hread
  intro _ v₃ h₃
  obtain ⟨hv₃, -⟩ := h₃.resolve_right id
  apply settles_unexpected _ hshape
  rw [hv₃.isAt, beq_eq_false_iff_ne]
  exact hmore.rightParen

/-! ## The list -/

def rowsValues? : ℕ → List (List (List Token)) → List (List (Option Expression))
  | _, [] => []
  | n, vs :: rows => rowValues? n vs :: rowsValues? (n + placeholderCount vs.flatten) rows

theorem rowsValues?_append (n : ℕ) (rows rest : List (List (List Token))) :
    rowsValues? n (rows ++ rest) = rowsValues? n rows ++
      rowsValues? (n + placeholderCount rows.flatten.flatten) rest := by
  induction rows generalizing n with
  | nil => rfl
  | cons vs rows ih =>
    rw [List.cons_append, rowsValues?, ih, rowsValues?, List.flatten_cons, List.flatten_append,
      placeholderCount_append, Nat.add_assoc, List.cons_append]

theorem tokensValue?_isSome (n m : ℕ) (v : List Token) :
    (tokensValue? n v).isSome = (tokensValue? m v).isSome := by
  match v with
  | [] => rfl
  | [t] =>
    by_cases hq : t.type = .symbol .question
    · simp [tokensValue?, operandValue, hq, shardingValue?, Expression.isShardingValue]
    · simp [tokensValue?, operandValue, hq]
  | _ :: _ :: _ => rfl

theorem rowValues?_isSome (n m : ℕ) (vs : List (List Token)) :
    (rowValues? n vs).map Option.isSome = (rowValues? m vs).map Option.isSome := by
  induction vs generalizing n m with
  | nil => rfl
  | cons v vs ih =>
    simp only [rowValues?, List.map_cons]
    rw [tokensValue?_isSome n m, ih]

theorem givesKey_iff {values : List (Option Expression)} : GivesKey key? cols values ↔
    ∀ p ∈ cols.zip (values.map Option.isSome), ShardingRule.isGeneratedKey key? p.1.name = true →
      p.2 = true := by
  unfold GivesKey
  rw [List.zip_map_right, List.forall_mem_map]
  rfl

theorem GivesKey.shift {n : ℕ} (m : ℕ) (h : GivesKey key? cols (rowValues? n vs)) :
    GivesKey key? cols (rowValues? m vs) := by
  rw [givesKey_iff] at h ⊢
  rwa [rowValues?_isSome m n]

structure RowsRead (rule : ShardingRule) (table : String) (w : Workspace InsertStatement)
    (rows : List (List (List Token))) (v : Workspace InsertStatement) : Prop where
  length : ∀ vs ∈ rows, vs.length = w.draft.columns.length
  added : RowsAdded w (placeholderCount rows.flatten.flatten)
    ((rowsValues? w.draft.findings.placeholders rows).flatMap
      (rowKeys (rule.generatedKey? table) w.draft.columns))
    ((rowsValues? w.draft.findings.placeholders rows).map fun values =>
      ⟨rowConditions rule w.draft.columns values⟩) v

theorem RowsRead.nil : RowsRead rule table w [] w := by
  constructor
  · simp
  · constructor <;> simp [rowsValues?, placeholderCount]

theorem RowsRead.row {x : Workspace InsertStatement} (h : RowsRead rule table w rows v)
    (hv : RowRead rule table vs v x) : RowsRead rule table w (rows ++ [vs]) x := by
  obtain ⟨hlen, hadded⟩ := hv
  rw [h.added.columns] at hlen hadded
  rw [h.added.placeholders] at hadded
  have hall := h.added.trans hadded
  constructor
  · simp only [List.forall_mem_append, List.forall_mem_singleton]
    exact ⟨h.length, hlen⟩
  · rw [rowsValues?_append, List.flatten_append, List.flatten_append, placeholderCount_append]
    simpa [rowsValues?] using hall

def SpellsRowOf (all : List (List (List Token))) (vs : List (List Token)) (ts : List Token) :
    Prop :=
  vs ∈ all ∧ SpellsRow vs ts

structure RowInvariant (rule : ShardingRule) (table : String) (all : List (List (List Token)))
    (I : List (List (List Token)) → Workspace InsertStatement → Prop) (F : Fault → Prop)
    (more : List Token) : Prop where
  row {vs : List (List Token)} {ts us : List Token} {before : List (List (List Token))}
    {v : Workspace InsertStatement} : vs ∈ all → SpellsFilled vs ts →
    v.cursor.Passes (ts ++ us) more → I before v →
    Settles v (valuesRow rule table) (fun _ x => x.cursor.Passes us more ∧ I (before ++ [vs]) x) F
  skip {before : List (List (List Token))} {v x : Workspace InsertStatement} :
    x.draft = v.draft → I before v → I before x
  shape : ∀ place cause, F (.malformed place cause)

variable {all : List (List (List Token))} {F : Fault → Prop}
  {I : List (List (List Token)) → Workspace InsertStatement → Prop}

theorem rowRule (hmore : EndsRows more) (hI : RowInvariant rule table all I F more) :
    ItemRule (.symbol .comma) (SpellsRowOf all) (valuesRow rule table)
      (fun ts => ∃ us, ts = us ++ more ∧ FurtherRows us) (fun rows _ => I rows) (fun _ => False) F
      more := by
  constructor
  · rintro vs ts us rows _ v ⟨hmem, hs⟩ ⟨us', hus, hfurther⟩ hv hbefore
    obtain rfl := List.append_cancel_right hus
    cases hs with
    | empty hl hr => exact settles_emptyRow hl hr hfurther hmore hI.shape hv
    | filled hs => exact (hI.row hmem hs hv hbefore).mono fun _ _ h => Or.inl h
  · exact fun _ _ _ _ _ h hbefore => hI.skip h.draft hbefore
  · rintro s rows ts us hs hrows ⟨us', hus, hfurther⟩
    obtain rfl := List.append_cancel_right hus
    have hplain : Joined (.symbol .comma) SpellsRow rows ts := hrows.mono fun _ _ _ h => h.2
    exact ⟨s :: (ts ++ us), rfl, .append hplain hfurther hs⟩
  · exact fun _ h => h.elim

/-- The rows behind VALUES are read up to the end of the list. -/
theorem settles_rows {values : Token}
    (hvalues : values.type ∈ keywordTypes (.VALUES :: w.cursor.dialect.grammar.valuesSynonyms))
    (hrows : Joined (.symbol .comma) SpellsRow rows ts) (hmore : EndsRows more)
    (htable : w.draft.findings.tables = ⟨[⟨table, none⟩]⟩)
    (hI : RowInvariant rule table rows I F more) (hw : w.cursor.Passes (values :: ts) more)
    (hbegin : I [] w) :
    Settles w (valuesClause rule) (fun _ v => v.cursor.Passes [] more ∧ I rows v) F := by
  unfold valuesClause
  apply settles_grammar.2
  apply settles_skipIf hw hvalues
  intro v hv
  rw [if_pos rfl]
  apply settles_insertTable (hv.draft ▸ htable)
  have hall : Joined (.symbol .comma) (SpellsRowOf rows) rows ts :=
    hrows.mono fun vs us hmem hs => ⟨hmem, hs⟩
  have hp : v.cursor.Passes (ts ++ []) more := by simpa using hv.passes
  have hend : ∃ us, [] ++ more = us ++ more ∧ FurtherRows us := ⟨[], rfl, .nil⟩
  have hread := (rowRule hmore hI).separated hend hmore.comma hall hp (hI.skip hv.draft hbegin)
  apply Settles.bind hread
  intro _ x hx
  exact Settles.pure (hx.resolve_right id)

structure Fitting (rule : ShardingRule) (table : String) (cols : List Column)
    (all : List (List (List Token))) (F : Fault → Prop) : Prop where
  columns : cols ≠ []
  key : namesKey (rule.generatedKey? table) cols = true → ∀ vs ∈ all, cols.length ≤ vs.length
  shape : ∀ place cause, F (.malformed place cause)
  given : ∀ f, (∃ vs ∈ all, ¬GivesKey (rule.generatedKey? table) cols (rowValues? 0 vs)) → F f

/-- Rows that fit are read with their values for the columns. -/
theorem Fitting.invariant (hfit : Fitting rule table w.draft.columns all F) :
    RowInvariant rule table all (RowsRead rule table w) F more := by
  constructor
  · intro vs ts us rows v hmem hs hv hI
    have hcols := hI.added.columns
    apply (settles_filledRow hs (by rw [hcols]; exact hfit.columns) ?_ hfit.shape ?_ hv).mono
    · rintro _ x ⟨hx, hread⟩
      exact ⟨hx, hI.row hread⟩
    · rw [hcols]
      exact fun hkey => hfit.key hkey vs hmem
    · intro f hf
      rw [hcols] at hf
      exact hfit.given f ⟨vs, hmem, fun h => hf (h.shift _)⟩
  · intro rows v x h hI
    constructor
    · exact hI.length
    · constructor
      · rw [h, hI.added.columns]
      · rw [h, hI.added.keys]
      · rw [h, hI.added.groups]
      · rw [h, hI.added.placeholders]
  · exact hfit.shape

end SqlFront

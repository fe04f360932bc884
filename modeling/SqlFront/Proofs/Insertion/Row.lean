import SqlFront.Proofs.Insertion.Value
import SqlFront.Proofs.Wording.Clause
import SqlFront.Proofs.Wording.Insertion
import SqlFront.Reading.Change

/-!
# Rows of values

A row that has a value for every column gives each column its value. A row of any other length
cannot be read, unless it is shorter than a list that names the generated key.
-/

set_option autoImplicit false

/-!
## Edits that add items

An INSERT without a column list has an edit that adds one, and the generated key may be taken out
of that edit or be added to it. What is read besides leaves the items alone: it adds edits of other
kinds.
-/

namespace SqlFront

open SqlFront.Parser SqlFront.Clause SqlFront.Reading

def itemLists (es : List Edit) : List (List String) := es.filterMap Edit.items?

theorem itemLists_append (es fs : List Edit) : itemLists (es ++ fs) = itemLists es ++ itemLists fs :=
  List.filterMap_append

theorem itemLists_add {e : Edit} (es : List Edit) (h : e.items? = none) :
    itemLists (es ++ [e]) = itemLists es := by
  rw [itemLists_append]
  simp [itemLists, h]

theorem itemLists_perm {es fs : List Edit} {names : List String} (h : es.Perm fs)
    (hes : itemLists es = [names]) : itemLists fs = [names] := by
  have hp : (itemLists fs).Perm [names] := hes ▸ (h.filterMap Edit.items?).symm
  exact List.perm_singleton.1 hp

/-! ## Reading -/

theorem both_self {ε α : Type} {R : α → α → Prop} (h : ∀ a, R a a) (r : Except ε α) :
    Both R r r := by
  cases r with
  | ok a => exact .ok (h a)
  | error e => exact .error e e

def Pairing.keeping (lists : List (List String)) : Pairing where
  cursors := Eq
  places := Eq
  texts := Eq
  edits es fs := itemLists es = lists ∧ itemLists fs = lists
  dialect h := h ▸ rfl
  word h := h ▸ ⟨rfl, rfl⟩
  start h := h ▸ rfl
  stop h := h ▸ rfl
  moves h := h ▸ rfl
  advance h := h ▸ both_self (fun _ => rfl) _
  slice h hm hn := by rw [h, hm, hn]
  trim h := h ▸ rfl
  add h hx hy := by rwa [itemLists_add _ hx, itemLists_add _ hy]

def KeepsItems (w v : Workspace InsertStatement) : Prop :=
  itemLists v.draft.findings.edits = itemLists w.draft.findings.edits

def Pairing.FoundIn (P : Pairing) (s t : InsertStatement) : Prop := P.Found s.findings t.findings

theorem Pairing.foundIn_drafts (P : Pairing) : Drafts P P.FoundIn := ⟨id, fun _ h => h⟩

theorem keepsItems_of_agrees {w v : Workspace InsertStatement} {α : Type} {a : α}
    {ρ : Pairing → α → α → Prop} {p : Parser InsertStatement α}
    (hp : ∀ P, Agrees P P.FoundIn (ρ P) p p) (h : p w = .ok a v) : KeepsItems w v := by
  let P := Pairing.keeping (itemLists w.draft.findings.edits)
  have hself : Alike P P.FoundIn w w := ⟨rfl, ⟨rfl, rfl, rfl⟩, rfl, rfl⟩
  exact ((hp P hself).both h h).2.drafts.edits.2

theorem agrees_value (P : Pairing) : Agrees P P.FoundIn P.Value
    (onFindings expression : Parser InsertStatement Expression) (onFindings expression) :=
  Agrees.onFindings P.foundIn_drafts agrees_expression

theorem value_items {w v : Workspace InsertStatement} {e : Expression}
    (h : onFindings expression w = .ok e v) : KeepsItems w v :=
  keepsItems_of_agrees agrees_value h

theorem values_items {w v : Workspace InsertStatement} {es : List Expression}
    (h : commaSeparated (onFindings expression) w = .ok es v) : KeepsItems w v :=
  keepsItems_of_agrees (fun P => (agrees_value P).separated) h

/-! ## The generated key -/

def dropName (key : String) (lists : List (List String)) : List (List String) :=
  lists.map fun names => names.filter fun n => !sameName n key

def appendName (key : String) : List (List String) → List (List String)
  | [] => [[key]]
  | names :: lists => (names ++ [key]) :: lists

theorem itemLists_removeKeyColumn {key : String} {s : InsertStatement}
    (h : (s.columns.filter fun c => !sameName c.name key).length ≠ s.columns.length) :
    itemLists (removeKeyColumn key s).findings.edits = dropName key (itemLists s.findings.edits) := by
  unfold removeKeyColumn
  simp only [if_neg h]
  unfold itemLists dropName
  rw [List.filterMap_map, List.map_filterMap]
  congr 1
  funext e
  cases e <;> rfl

theorem itemLists_appendItem? {key : String} {es fs : List Edit}
    (h : appendItem? key es = some fs) : itemLists fs = appendName key (itemLists es) := by
  induction es generalizing fs with
  | nil => cases h
  | cons e es ih =>
    cases e with
    | items start names leading =>
      obtain rfl := Option.some.inj h
      rfl
    | _ =>
      obtain ⟨gs, hg, rfl⟩ := Option.map_eq_some_iff.1 h
      have htail : itemLists gs = appendName key (itemLists es) := ih hg
      exact htail

theorem itemLists_eq_nil {key : String} {es : List Edit} (h : appendItem? key es = none) :
    itemLists es = [] := by
  induction es with
  | nil => rfl
  | cons e es ih =>
    cases e with
    | items => cases h
    | _ => exact ih (Option.map_eq_none_iff.1 h)

theorem itemLists_addKeyColumn (key : String) (s : InsertStatement) :
    itemLists (addKeyColumn key s).findings.edits = appendName key (itemLists s.findings.edits) := by
  unfold addKeyColumn
  cases h : appendItem? key s.findings.edits with
  | some fs => exact itemLists_appendItem? h
  | none =>
    simp only [itemLists_append, itemLists_eq_nil h]
    rfl

end SqlFront

/-! ## Rows of values -/

namespace SqlFront

open SqlFront.Parser SqlFront.Clause

variable {rule : ShardingRule} {table : String} {key? : Option String}
  {w v : Workspace InsertStatement} {ts us more : List Token} {cols : List Column}

/-! ## The values -/

structure IsValue (ts : List Token) : Prop where
  ne_nil : ts ≠ []
  level : Level ts
  complete : Complete ts

/-- A word, a number or a placeholder by itself is a value. -/
theorem IsValue.token {t : Token} (h : t.type ∉ [TokenType.symbol .leftParen, .symbol .rightParen,
    .symbol .comma, .endOfText] ++ operators) : IsValue [t] := by
  simp only [List.mem_append, List.mem_cons, List.not_mem_nil, or_false, not_or] at h
  obtain ⟨⟨hleft, hright, hcomma, hend⟩, hop⟩ := h
  constructor
  · simp
  · exact .token hleft hright hcomma hend .nil
  · refine .of_last (by simpa using hop) fun x hx hdot => hop ?_
    rw [← List.mem_singleton.1 hx, hdot]
    decide

theorem IsValue.flat {ts : List Token} (hne : ts ≠ [])
    (hlast : ∀ t ∈ ts.getLast?, t.type ∉ operators)
    (h : ∀ t ∈ ts, t.type ∉ [TokenType.symbol .leftParen, .symbol .rightParen, .symbol .comma,
      .endOfText, .symbol .dot]) : IsValue ts := by
  refine ⟨hne, ?_, .of_last hlast fun t ht hdot => h t ht (by simp [hdot])⟩
  clear hne hlast
  induction ts with
  | nil => exact .nil
  | cons t ts ih =>
    rw [List.forall_mem_cons] at h
    obtain ⟨ht, hts⟩ := h
    simp only [List.mem_cons, List.not_mem_nil, or_false, not_or] at ht
    exact .token ht.1 ht.2.1 ht.2.2.1 ht.2.2.2.1 (ih hts)

abbrev SpellsValues : List (List Token) → List Token → Prop :=
  Joined (.symbol .comma) fun v ts => IsValue v ∧ ts = v

inductive SpellsFilled (vs : List (List Token)) : List Token → Prop
  | intro {l r : Token} {ts : List Token} : l.type = .symbol .leftParen → SpellsValues vs ts →
      r.type = .symbol .rightParen → SpellsFilled vs (l :: (ts ++ [r]))

def rowValues? : ℕ → List (List Token) → List (Option Expression)
  | _, [] => []
  | n, v :: vs => tokensValue? n v :: rowValues? (n + placeholderCount v) vs

theorem rowValues?_length (n : ℕ) (vs : List (List Token)) :
    (rowValues? n vs).length = vs.length := by
  induction vs generalizing n with
  | nil => rfl
  | cons v vs ih => rw [rowValues?, List.length_cons, ih, List.length_cons]

theorem rowValues?_append (n : ℕ) (us vs : List (List Token)) : rowValues? n (us ++ vs) =
    rowValues? n us ++ rowValues? (n + placeholderCount us.flatten) vs := by
  induction us generalizing n with
  | nil => rfl
  | cons u us ih =>
    rw [List.cons_append, rowValues?, ih, rowValues?, List.flatten_cons, placeholderCount_append,
      Nat.add_assoc, List.cons_append]

def Counts (w : Workspace InsertStatement) (n : ℕ) (v : Workspace InsertStatement) : Prop :=
  ∃ edits, v.draft = { w.draft with findings := w.draft.findings.behind n [] edits }

def ValuesRead (w : Workspace InsertStatement) (vs : List (List Token)) (es : List Expression)
    (v : Workspace InsertStatement) : Prop :=
  es.map shardingValue? = rowValues? w.draft.findings.placeholders vs ∧
    Counts w (placeholderCount vs.flatten) v

def StuckInValue (v : Workspace InsertStatement) : Prop :=
  v.cursor.isAtAny [.symbol .comma] = false ∧ v.cursor.isAt (.symbol .rightParen) = false

theorem Level.front_ne {t : Token} (h : Level (t :: ts)) :
    t.type ≠ .symbol .comma ∧ t.type ≠ .symbol .rightParen := by
  cases h with
  | token _ hr hc => exact ⟨hc, hr⟩
  | group hl => simp [hl]

theorem valueRule (w : Workspace InsertStatement) (more : List Token) :
    ItemRule (.symbol .comma) (fun v ts => IsValue v ∧ ts = v)
      (onFindings expression : Parser InsertStatement Expression)
      (fun ts => endsOperand ts = true) (ValuesRead w)
      StuckInValue (fun _ => False) more := by
  constructor
  · rintro x _ us before es v ⟨hx, rfl⟩ hus hv ⟨hes, edits, hd⟩
    apply settles_onFindings.2
    apply (achieves_read (w := ⟨v.cursor, v.draft.findings⟩) hx.level hx.complete hx.ne_nil hus
      hv).mono
    rintro e v₁ ⟨taken, rest, hsplit, ⟨hl, hp, edits₁, hcount⟩, hvalue, -⟩
    cases rest with
    | nil =>
      rw [List.append_nil] at hsplit
      subst hsplit
      refine Or.inl ⟨hp, ?_, edits₁, ?_⟩
      · rw [List.map_append, hes, rowValues?_append, List.map_singleton, hvalue rfl, hd]
        rfl
      · change ({ v.draft with findings := v₁.draft } : InsertStatement) = _
        rw [hcount, hd]
        simp [Findings.behind, placeholderCount_append, Nat.add_assoc]
    | cons t rest =>
      obtain ⟨hc, hr⟩ := hl.front_ne
      right
      constructor
      · rw [hp.isAtAny]
        simpa using hc
      · rw [hp.isAt]
        simpa using hr
  · rintro ts before es v v₁ h ⟨hes, edits, hd⟩
    exact ⟨hes, edits, by rw [h.draft, hd]⟩
  · intro s _ ts us hs _ _
    exact endsOperand_comma hs
  · exact fun v h => h.1

/-! ## Columns and values -/

def givenCondition? (rule : ShardingRule) (c : Column) (value? : Option Expression) :
    Option Condition :=
  value?.bind fun e => if rule.isShardingColumn c then some ⟨c, .equal, [e]⟩ else none

def givenKey? (key? : Option String) (c : Column) (value? : Option Expression) :
    Option GeneratedKey :=
  value?.bind fun e => if ShardingRule.isGeneratedKey key? c.name then some ⟨c, e⟩ else none

def rowConditions (rule : ShardingRule) (cols : List Column) (values : List (Option Expression)) :
    List Condition :=
  (cols.zip values).filterMap fun p => givenCondition? rule p.1 p.2

def rowKeys (key? : Option String) (cols : List Column) (values : List (Option Expression)) :
    List GeneratedKey :=
  (cols.zip values).filterMap fun p => givenKey? key? p.1 p.2

def GivesKey (key? : Option String) (cols : List Column) (values : List (Option Expression)) :
    Prop :=
  ∀ p ∈ cols.zip values, ShardingRule.isGeneratedKey key? p.1.name = true → p.2.isSome

def namesKey (key? : Option String) (cols : List Column) : Bool :=
  cols.any fun c => ShardingRule.isGeneratedKey key? c.name

theorem valueCondition?_eq (c : Column) (e : Expression) :
    valueCondition? rule c e = givenCondition? rule c (shardingValue? e) := by
  unfold valueCondition? givenCondition? shardingValue?
  cases e.isShardingValue <;> simp

theorem rowKeys_map (es : List Expression) : rowKeys key? cols (es.map shardingValue?) =
    (cols.zip es).filterMap fun p => givenKey? key? p.1 (shardingValue? p.2) := by
  unfold rowKeys
  rw [List.zip_map_right, List.filterMap_map]
  rfl

theorem rowConditions_map (es : List Expression) :
    rowConditions rule cols (es.map shardingValue?) =
      (cols.zip es).filterMap fun p => valueCondition? rule p.1 p.2 := by
  unfold rowConditions
  simp only [valueCondition?_eq]
  rw [List.zip_map_right, List.filterMap_map]
  rfl

theorem shortenColumns_eq {s : InsertStatement} {n : ℕ}
    (h : namesKey key? s.columns = true → s.columns.length ≤ n) :
    shortenColumns key? n s = s := by
  unfold shortenColumns
  cases key? with
  | none => rfl
  | some key =>
    simp only
    split
    · next hlt =>
      have hfalse : namesKey (some key) s.columns = false := by
        by_contra hn
        have := h (by simpa using hn)
        omega
      have hfilter : (s.columns.filter fun c => !sameName c.name key) = s.columns := by
        apply List.filter_eq_self.2
        intro c hc
        simp only [namesKey, List.any_eq_false] at hfalse
        have hc' := hfalse c hc
        simp only [ShardingRule.isGeneratedKey, Option.any_some] at hc'
        rw [sameName_comm]
        simpa using hc'
      unfold removeKeyColumn
      simp only [hfilter, if_true]
    · rfl

theorem settles_recordGeneratedKey {c : Column} {e : Expression} {place : ℕ} {F : Fault → Prop}
    (hF : ∀ f, ShardingRule.isGeneratedKey key? c.name = true → shardingValue? e = none → F f) :
    Settles w (recordGeneratedKey key? c e place) (fun _ v => v.cursor = w.cursor ∧
      v.draft = { w.draft with generatedKeys :=
        w.draft.generatedKeys ++ (givenKey? key? c (shardingValue? e)).toList } ∧
      (ShardingRule.isGeneratedKey key? c.name = true → (shardingValue? e).isSome)) F := by
  unfold recordGeneratedKey givenKey?
  by_cases hkey : ShardingRule.isGeneratedKey key? c.name = true
  · rw [if_pos hkey]
    by_cases hvalue : e.isShardingValue = true
    · rw [if_pos hvalue, shardingValue?, if_pos hvalue, Option.bind_some, if_pos hkey]
      exact ⟨rfl, rfl, fun _ => rfl⟩
    · rw [if_neg hvalue]
      exact hF _ hkey (if_neg hvalue)
  · rw [if_neg hkey]
    refine Settles.pure ⟨rfl, ?_, fun h => (hkey h).elim⟩
    cases shardingValue? e <;> simp [hkey]

theorem settles_recordKeys {pairs : List (Column × Expression)} {place : ℕ} {F : Fault → Prop}
    (hF : ∀ f, ∀ p ∈ pairs, ShardingRule.isGeneratedKey key? p.1.name = true →
      shardingValue? p.2 = none → F f) :
    Settles w (pairs.forM fun p => recordGeneratedKey key? p.1 p.2 place)
      (fun _ v => v.cursor = w.cursor ∧ v.draft = { w.draft with generatedKeys :=
        w.draft.generatedKeys ++
          (pairs.filterMap fun p => givenKey? key? p.1 (shardingValue? p.2)) } ∧
        ∀ p ∈ pairs, ShardingRule.isGeneratedKey key? p.1.name = true →
          (shardingValue? p.2).isSome) F := by
  induction pairs generalizing w with
  | nil => exact Settles.pure ⟨rfl, by simp⟩
  | cons p pairs ih =>
    rw [List.forM_eq_forM, List.forM_cons]
    apply (settles_recordGeneratedKey fun f => hF f p (by simp)).bind
    rintro _ v ⟨hc, hd, hp⟩
    apply (ih fun f q hq => hF f q (by simp [hq])).mono
    rintro _ v₁ ⟨hc₁, hd₁, hps⟩
    refine ⟨hc₁.trans hc, ?_, List.forall_mem_cons.2 ⟨hp, hps⟩⟩
    rw [hd₁, hd, List.filterMap_cons]
    cases givenKey? key? p.1 (shardingValue? p.2) <;> simp

/-! ## Rows -/

structure RowsAdded (w : Workspace InsertStatement) (n : ℕ) (keys : List GeneratedKey)
    (groups : List ConditionGroup) (v : Workspace InsertStatement) : Prop where
  columns : v.draft.columns = w.draft.columns
  keys : v.draft.generatedKeys = w.draft.generatedKeys ++ keys
  groups : v.draft.findings.conditions.groups = w.draft.findings.conditions.groups ++ groups
  placeholders : v.draft.findings.placeholders = w.draft.findings.placeholders + n

theorem RowsAdded.trans {w₁ : Workspace InsertStatement} {n m : ℕ} {ks ks' : List GeneratedKey}
    {gs gs' : List ConditionGroup} (h₁ : RowsAdded w n ks gs w₁) (h₂ : RowsAdded w₁ m ks' gs' v) :
    RowsAdded w (n + m) (ks ++ ks') (gs ++ gs') v := by
  constructor
  · rw [h₂.columns, h₁.columns]
  · rw [h₂.keys, h₁.keys, List.append_assoc]
  · rw [h₂.groups, h₁.groups, List.append_assoc]
  · rw [h₂.placeholders, h₁.placeholders, Nat.add_assoc]

theorem Counts.rowsAdded {n : ℕ} (h : Counts w n v) : RowsAdded w n [] [] v := by
  obtain ⟨edits, hd⟩ := h
  constructor <;> simp [hd, Findings.behind]

theorem recordValues_eq (place : RowPlace) (pairs : List (Column × Expression)) :
    recordValues rule table place pairs = (do
      pairs.forM fun p => recordGeneratedKey (rule.generatedKey? table) p.1 p.2 place.start
      let source := (← cursor).slice place.start place.stop
      modifyDraft (addRow .values source place.before
        (pairs.filterMap fun p => valueCondition? rule p.1 p.2))) := rfl

theorem settles_recordValues {place : RowPlace} {pairs : List (Column × Expression)}
    {F : Fault → Prop}
    (hF : ∀ f, ∀ p ∈ pairs,
      ShardingRule.isGeneratedKey (rule.generatedKey? table) p.1.name = true →
      shardingValue? p.2 = none → F f) :
    Settles w (recordValues rule table place pairs) (fun _ v => v.cursor = w.cursor ∧
      v.draft = addRow .values (w.cursor.slice place.start place.stop) place.before
        (pairs.filterMap fun p => valueCondition? rule p.1 p.2)
        { w.draft with generatedKeys := w.draft.generatedKeys ++ (pairs.filterMap fun p =>
            givenKey? (rule.generatedKey? table) p.1 (shardingValue? p.2)) } ∧
      ∀ p ∈ pairs, ShardingRule.isGeneratedKey (rule.generatedKey? table) p.1.name = true →
        (shardingValue? p.2).isSome) F := by
  rw [recordValues_eq]
  apply (settles_recordKeys hF).bind
  rintro _ v ⟨hc, hd, hgiven⟩
  apply settles_cursor.2
  refine ⟨hc, ?_, hgiven⟩
  rw [← hd, hc]

theorem settles_recordRow {place : RowPlace} {es : List Expression} {F : Fault → Prop}
    (hne : w.draft.columns ≠ [])
    (hkey : namesKey (rule.generatedKey? table) w.draft.columns = true →
      w.draft.columns.length ≤ es.length)
    (hshape : ∀ place cause, F (.malformed place cause))
    (hgiven : ∀ f, ¬GivesKey (rule.generatedKey? table) w.draft.columns (es.map shardingValue?) →
      F f) :
    Settles w (recordRow rule table place es) (fun _ v => v.cursor = w.cursor ∧
      es.length = w.draft.columns.length ∧
      RowsAdded w 0 (rowKeys (rule.generatedKey? table) w.draft.columns (es.map shardingValue?))
        [⟨rowConditions rule w.draft.columns (es.map shardingValue?)⟩] v) F := by
  unfold recordRow
  apply settles_modifyDraft.2
  rw [shortenColumns_eq hkey]
  apply settles_draft.2
  by_cases hlen : w.draft.columns.length = es.length
  · rw [if_neg (by simp [hlen])]
    have hkeys : ∀ f, ∀ p ∈ w.draft.columns.zip es,
        ShardingRule.isGeneratedKey (rule.generatedKey? table) p.1.name = true →
        shardingValue? p.2 = none → F f := by
      intro f p hp hname hnone
      apply hgiven
      intro hall
      have hmem : (p.1, shardingValue? p.2) ∈ w.draft.columns.zip (es.map shardingValue?) := by
        rw [List.zip_map_right]
        exact List.mem_map.2 ⟨p, hp, rfl⟩
      have hsome := hall _ hmem hname
      rw [hnone] at hsome
      cases hsome
    apply (settles_recordValues hkeys).mono
    rintro _ v ⟨hc, hd, -⟩
    refine ⟨hc, hlen.symm, ?_⟩
    rw [rowKeys_map, rowConditions_map]
    constructor <;> simp [addRow, hd, Findings.pushGroup, Conditions.push]
  · rw [if_pos (by simp [hne, hlen])]
    exact hshape _ _

structure ValuesPassed (w : Workspace InsertStatement) (vs : List (List Token))
    (v : Workspace InsertStatement) : Prop where
  counts : Counts w (placeholderCount vs.flatten) v
  items : KeepsItems w v

def RowRead (rule : ShardingRule) (table : String) (vs : List (List Token))
    (w v : Workspace InsertStatement) : Prop :=
  vs.length = w.draft.columns.length ∧
    RowsAdded w (placeholderCount vs.flatten)
      (rowKeys (rule.generatedKey? table) w.draft.columns
        (rowValues? w.draft.findings.placeholders vs))
      [⟨rowConditions rule w.draft.columns (rowValues? w.draft.findings.placeholders vs)⟩] v

theorem settles_rowOfValues {vs : List (List Token)} {F : Fault → Prop} (hs : SpellsFilled vs ts)
    (hshape : ∀ place cause, F (.malformed place cause)) (hw : w.cursor.Passes (ts ++ us) more) :
    Settles w (rowOfValues table) (fun r v => v.cursor.Passes us more ∧
      r.2.map shardingValue? = rowValues? w.draft.findings.placeholders vs ∧
      ValuesPassed w vs v) F := by
  obtain @⟨l, r, ts, hl, hvs, hr⟩ := hs
  unfold rowOfValues
  apply settles_current.2
  apply Achieves.bind (P := fun _ v => v.cursor = w.cursor ∧ Counts w 0 v ∧ KeepsItems w v)
  · apply settles_onFindings.2
    refine ⟨rfl, ⟨w.draft.findings.edits ++ [_], rfl⟩, ?_⟩
    exact itemLists_add _ rfl
  rintro _ v₁ ⟨hc₁, hd₁, hi₁⟩
  apply settles_draft.2
  have hw₁ : v₁.cursor.Passes (l :: (ts ++ r :: us)) more := by
    rw [hc₁]
    simpa using hw
  apply (achieves_expect hw₁ hl).bind
  intro _ v₂ h₂
  have hend : endsOperand (r :: us ++ more) = true := endsOperand_rightParen hr
  have hvalues := (valueRule v₂ more).separated hend (by simp [hr]) hvs h₂.passes
    ⟨rfl, v₂.draft.findings.edits, rfl⟩
  apply Achieves.bind (Settles.withRun hvalues)
  rintro es v₃ ⟨⟨hv₃, hes, h₃⟩ | ⟨-, hstuck⟩, hrun⟩
  · apply (achieves_expect hv₃ hr).bind
    intro _ v₄ h₄
    apply settles_cursor.2
    have hcounts : Counts w (placeholderCount vs.flatten) v₄ := by
      obtain ⟨edits₁, hd₁⟩ := hd₁
      obtain ⟨edits₃, hd₃⟩ := h₃
      refine ⟨edits₃, ?_⟩
      rw [h₄.draft, hd₃, h₂.draft, hd₁]
      simp [Findings.behind]
    have hitems : KeepsItems w v₄ := by
      have h₃ := values_items hrun
      unfold KeepsItems at *
      rw [h₄.draft, h₃, h₂.draft, hi₁]
    refine Settles.pure ⟨h₄.passes, ?_, hcounts, hitems⟩
    rw [hes, h₂.draft, hd₁.rowsAdded.placeholders]
    rfl
  · exact settles_unexpected hstuck hshape

theorem length_of_values {n : ℕ} {vs : List (List Token)} {es : List Expression}
    (h : es.map shardingValue? = rowValues? n vs) : es.length = vs.length := by
  rw [← rowValues?_length n vs, ← h, List.length_map]

theorem settles_valuesRow {vs : List (List Token)} {Q : Unit → Workspace InsertStatement → Prop}
    {F : Fault → Prop} (hs : SpellsFilled vs ts) (hshape : ∀ place cause, F (.malformed place cause))
    (hw : w.cursor.Passes (ts ++ us) more)
    (h : ∀ place es v, v.cursor.Passes us more →
      es.map shardingValue? = rowValues? w.draft.findings.placeholders vs → ValuesPassed w vs v →
      Settles v (recordRow rule table place es) Q F) :
    Settles w (valuesRow rule table) Q F := by
  rw [valuesRow_eq]
  apply (settles_rowOfValues hs hshape hw).bind
  rintro r v ⟨hv, hvalues, hpassed⟩
  exact h r.1 r.2 v hv hvalues hpassed

theorem settles_filledRow {vs : List (List Token)} {F : Fault → Prop} (hs : SpellsFilled vs ts)
    (hne : w.draft.columns ≠ [])
    (hkey : namesKey (rule.generatedKey? table) w.draft.columns = true →
      w.draft.columns.length ≤ vs.length)
    (hshape : ∀ place cause, F (.malformed place cause))
    (hgiven : ∀ f, ¬GivesKey (rule.generatedKey? table) w.draft.columns
      (rowValues? w.draft.findings.placeholders vs) → F f)
    (hw : w.cursor.Passes (ts ++ us) more) :
    Settles w (valuesRow rule table) (fun _ v => v.cursor.Passes us more ∧
      RowRead rule table vs w v) F := by
  apply settles_valuesRow hs hshape hw
  intro place es v hv hvalues hpassed
  have hread := hpassed.counts.rowsAdded
  have hlength := length_of_values hvalues
  have hcols : v.draft.columns = w.draft.columns := hread.columns
  apply (settles_recordRow (by rw [hcols]; exact hne) (by rw [hcols, hlength]; exact hkey) hshape
    (by rw [hcols, hvalues]; exact hgiven)).mono
  rintro _ v₅ ⟨hc₅, hlen, h₅⟩
  rw [hcols, hvalues] at h₅
  refine ⟨by rw [hc₅]; exact hv, by rw [← hlength, hlen, hcols], ?_⟩
  simpa using hread.trans h₅

end SqlFront

import SqlFront.Proofs.Progress.Query
import SqlFront.Proofs.Progress.Table

/-!
# Queries in queries

A query in FROM goes on with the count of the query around it, and hands its own count back. The
levels of a SELECT are thus read in one forward move.
-/

set_option autoImplicit false

namespace SqlFront

open SqlFront.Parser SqlFront.Clause SqlFront.Reading

def AtSubQuery (c : Cursor) : Prop :=
  c.isAt (.symbol .leftParen) = true ∧ ∃ t, c.peek = .ok t ∧ t.type = .keyword .SELECT

theorem atSubQuery_of_ok {σ : Type} {w w' : Workspace σ} {b : Bool}
    (h : isAtSubQuery w = .ok b w') : w' = w ∧ (b = true ↔ AtSubQuery w.cursor) := by
  obtain ⟨rfl, hb⟩ := isAtSubQuery_ok.1 h
  refine ⟨rfl, ?_⟩
  split at hb
  · next hp =>
    obtain ⟨x, hx, rfl⟩ := hb
    simp only [AtSubQuery, hp, true_and, beq_iff_eq]
    constructor
    · exact fun ht => ⟨x, hx, ht⟩
    · rintro ⟨t, ht, htype⟩
      rw [hx] at ht
      cases ht
      exact htype
  · next hp => simp [hb, AtSubQuery, hp]

structure QueryPlaces (rule : ShardingRule) (P : Place → Cursor → Prop) : Prop
    extends TablePlaces rule P where
  /-- Behind the select list. -/
  head {w w' : Workspace Query} {u : Unit} :
    P .query w.cursor → queryHead rule w = .ok u w' → P .selected w'.cursor
  /-- Behind `FROM`, where no query comes. -/
  fromTable {c c' : Cursor} : P .selected c → c.isAtAny [.keyword .FROM] = true →
    c.advance = .ok c' → ¬AtSubQuery c' → P .table c'
  /-- Behind `FROM` and the parenthesis of a query. -/
  fromQuery {c c₁ c' : Cursor} : P .selected c → c.isAtAny [.keyword .FROM] = true →
    c.advance = .ok c₁ → AtSubQuery c₁ → c₁.advance = .ok c' → P .query c'
  /-- Behind a query in FROM and its alias. -/
  closed {n : ℕ} {c c₁ c₂ : Cursor} {q q₁ q₂ : Query} {inner : List Query} {a : Option String}
    {w : Workspace Query} : P .query c → queryLevel rule n ⟨c, q⟩ = .ok inner ⟨c₁, q₁⟩ →
    c₁.isAt (.symbol .rightParen) = true → c₁.advance = .ok c₂ → alias? ⟨c₂, q₂⟩ = .ok a w →
    P .behind w.cursor

variable {T C : Prop} {rule : ShardingRule} {P : Place → Cursor → Prop}

theorem queryPlaces_all : QueryPlaces rule fun _ _ => True :=
  ⟨tablePlaces_all, fun _ _ => trivial, fun _ _ _ _ => trivial, fun _ _ _ _ _ => trivial,
    fun _ _ _ _ _ => trivial⟩

variable {N : Cursor → Prop} {w₀ w w' w₁ : Workspace Query} {inner : List Query}

inductive Within (rule : ShardingRule) (N : Cursor → Prop) (T C : Prop) :
    Cursor → ℕ → Cursor → ℕ → List Query → Prop
  | nil {c c' : Cursor} {k k' : ℕ} : Within rule N T C c k c' k' []
  | cons {c c₁ c₂ c' : Cursor} {k k₁ k' n : ℕ} {q : Query} {inner : List Query} :
      Moves N c k c₁ k₁ →
      queryLevel rule n ⟨c₁, { findings := { kind := .dql, placeholders := k₁ } }⟩ =
        .ok inner ⟨c₂, q⟩ →
      QueryProgress N T C ⟨c₁, { findings := { kind := .dql, placeholders := k₁ } }⟩ ⟨c₂, q⟩ →
      Within rule N T C c₁ k₁ c₂ q.findings.placeholders inner →
      Moves N c₂ q.findings.placeholders c' k' → Within rule N T C c k c' k' (q :: inner)

theorem Within.extend {c₀ c c' c₁ : Cursor} {k₀ k k' k₁ : ℕ} (h₀ : Moves N c₀ k₀ c k)
    (h : Within rule N T C c k c' k' inner) (h₁ : Moves N c' k' c₁ k₁) :
    Within rule N T C c₀ k₀ c₁ k₁ inner := by
  cases h with
  | nil => exact .nil
  | cons hm hrun hq hinner hm' => exact .cons (h₀.trans hm) hrun hq hinner (hm'.trans h₁)

theorem Within.exists_of_mem {c c' : Cursor} {k k' : ℕ} {q : Query}
    (h : Within rule N T C c k c' k' inner) (hq : q ∈ inner) : ∃ c₁ k₁ c₂, Moves N c k c₁ k₁ ∧
      QueryProgress N T C ⟨c₁, { findings := { kind := .dql, placeholders := k₁ } }⟩ ⟨c₂, q⟩ ∧
      Moves N c₂ q.findings.placeholders c' k' := by
  induction h with
  | nil => cases hq
  | cons hm _ hr _ hm' ih =>
    rcases List.mem_cons.1 hq with rfl | hq
    · exact ⟨_, _, _, hm, hr, hm'⟩
    · obtain ⟨c₁, k₁, c₂, h₁, hq, h₂⟩ := ih hq
      exact ⟨c₁, k₁, c₂, hm.trans h₁, hq, h₂.trans hm'⟩

structure LevelProgress (rule : ShardingRule) (N : Cursor → Prop) (T C : Prop)
    (w w' : Workspace Query) (inner : List Query) : Prop where
  query : QueryProgress N T C w w'
  within : Within rule N T C w.cursor w.draft.findings.placeholders w'.cursor
    w'.draft.findings.placeholders inner

theorem LevelProgress.extend (h₀ : QueryProgress N T C w₀ w)
    (h : LevelProgress rule N T C w w' inner) (h₁ : QueryProgress N T C w' w₁) :
    LevelProgress rule N T C w₀ w₁ inner :=
  ⟨Course.trans (Course.trans h₀ h.query) h₁, h.within.extend h₀.found.moves h₁.found.moves⟩

theorem LevelProgress.of_query (h : QueryProgress N T C w w') :
    LevelProgress rule N T C w w' [] :=
  ⟨h, .nil⟩

theorem onFindings_progress {p : Parser Findings Unit} {w w' : Workspace Query} {u : Unit}
    (h : (onFindings p : Parser Query Unit) w = .ok u w')
    (hp : ∀ {v v' : Workspace Findings}, v.cursor = w.cursor → p v = .ok u v' →
      Progress (Names P) T C v v' ∧ P .behind v'.cursor) :
    QueryProgress (Names P) T C w w' ∧ P .behind w'.cursor := by
  obtain ⟨c, f, hf, rfl⟩ := onFindings_ok.1 h
  obtain ⟨hw, hb⟩ := hp rfl hf
  exact ⟨Course.lift hw, hb⟩

theorem nestedQuery_ok {sub : Parser Query (List Query)} {w w' : Workspace Query}
    {inner : List Query} (h : nestedQuery sub w = .ok inner w') : ∃ q chain c c',
      sub ⟨w.cursor, { findings :=
        { kind := .dql, placeholders := w.draft.findings.placeholders } }⟩ = .ok chain ⟨c, q⟩ ∧
      c.isAt (.symbol .rightParen) = true ∧ c.advance = .ok c' ∧ inner = q :: chain ∧
      w' = ⟨c', setFindings w.draft
        { w.draft.findings with placeholders := q.findings.placeholders }⟩ := by
  obtain ⟨q₀, _, hd, h⟩ := bind_ok.1 h
  obtain ⟨rfl, rfl⟩ := draft_ok.1 hd
  obtain ⟨⟨q, chain⟩, _, hi, h⟩ := bind_ok.1 h
  obtain ⟨c, hs, rfl⟩ := inside_ok.1 hi
  obtain ⟨_, _, hm, h⟩ := bind_ok.1 h
  obtain ⟨c', f, hf, rfl⟩ := onFindings_ok.1 hm
  cases modifyDraft_ok.1 hf
  obtain ⟨_, w₁, he, h⟩ := bind_ok.1 h
  obtain ⟨hat, c', hc', rfl⟩ := expect_ok.1 he
  obtain ⟨rfl, rfl⟩ := pure_ok.1 h
  exact ⟨q, chain, c, c', hs, hat, hc', rfl, rfl⟩

theorem nestedQuery_progress {n : ℕ} {w w' : Workspace Query} {inner : List Query}
    (hsub : ∀ {v v' : Workspace Query} {inner : List Query}, queryLevel rule n v = .ok inner v' →
      v.cursor = w.cursor → LevelProgress rule (Names P) T C v v' inner)
    (h : nestedQuery (queryLevel rule n) w = .ok inner w') :
    LevelProgress rule (Names P) T C w w' inner := by
  obtain ⟨q, chain, c, c', hs, hat, hc', rfl, rfl⟩ := nestedQuery_ok h
  obtain ⟨hq, hchain⟩ := hsub hs rfl
  have hmoves : Moves (Names P) w.cursor w.draft.findings.placeholders c
      q.findings.placeholders := hq.found.moves
  have hclose : Moves (Names P) c q.findings.placeholders c' q.findings.placeholders :=
    .token (isAt_eq_false hat (by simp)) hc'
  exact ⟨Course.lift (.move (hmoves.trans hclose)), .cons (.refl _ _) hs hq hchain hclose⟩

theorem behindNestedQuery_progress {w w' : Workspace Query} {u : Unit} (hT : T)
    (hP : TablePlaces rule P)
    (hw : ∀ {a : Option String} {w₁ : Workspace Query}, alias? w = .ok a w₁ → P .behind w₁.cursor)
    (h : behindNestedQuery rule w = .ok u w') : QueryProgress (Names P) T C w w' := by
  obtain ⟨a, w₁, ha, h⟩ := bind_ok.1 h
  have h₁ : QueryProgress (Names P) T C w w₁ := follows_alias? ha
  obtain ⟨_, w₂, hj, h⟩ := bind_ok.1 h
  obtain ⟨h₂, hb⟩ := onFindings_progress (C := C) hj fun hv hr =>
    joins_progress hT hP (hv ▸ hw ha) hr
  obtain ⟨b, w₃, hs, h⟩ := bind_ok.1 h
  have h₃ : QueryProgress (Names P) T C w₂ w₃ := follows_skipSymbol (by decide) hs
  have h₁₃ := Course.trans (Course.trans h₁ h₂) h₃
  obtain ⟨hat, hw₃⟩ := skipIf_ok.1 hs
  cases b with
  | true =>
    obtain ⟨c, hc, rfl⟩ := hw₃
    have h₄ := onFindings_progress (C := C) h fun hv hr =>
      tableReferences_progress hT hP (hv ▸ hP.comma hb hat hc) hr
    exact Course.trans h₁₃ h₄.1
  | false =>
    obtain ⟨-, rfl⟩ := pure_ok.1 h
    exact h₁₃

inductive FromRun (rule : ShardingRule) (sub : Parser Query (List Query)) (w : Workspace Query) :
    List Query → Workspace Query → Prop
  | absent : w.cursor.isAtAny [.keyword .FROM] = false → FromRun rule sub w [] w
  | tables {c : Cursor} {w' : Workspace Query} : w.cursor.isAtAny [.keyword .FROM] = true →
      w.cursor.advance = .ok c → ¬AtSubQuery c →
      onFindings (tableReferences rule false) ⟨c, w.draft⟩ = .ok () w' → FromRun rule sub w [] w'
  | query {c c' : Cursor} {w₁ w' : Workspace Query} {inner : List Query} :
      w.cursor.isAtAny [.keyword .FROM] = true → w.cursor.advance = .ok c → AtSubQuery c →
      c.advance = .ok c' → nestedQuery sub ⟨c', w.draft⟩ = .ok inner w₁ →
      behindNestedQuery rule w₁ = .ok () w' → FromRun rule sub w inner w'

theorem fromClause_run {sub : Parser Query (List Query)} {w w' : Workspace Query}
    {inner : List Query} (hr : fromClause rule sub w = .ok inner w') :
    FromRun rule sub w inner w' := by
  obtain ⟨b, w₁, hf, h⟩ := bind_ok.1 hr
  obtain ⟨hat, hw⟩ := skipIf_ok.1 hf
  cases b with
  | false =>
    obtain rfl := hw
    obtain ⟨rfl, rfl⟩ := pure_ok.1 h
    exact .absent hat
  | true =>
    obtain ⟨c, hc, rfl⟩ := hw
    obtain ⟨b, _, hsq, h⟩ := bind_ok.1 h
    obtain ⟨rfl, hb⟩ := atSubQuery_of_ok hsq
    cases b with
    | false =>
      obtain ⟨_, w₂, ht, h⟩ := bind_ok.1 h
      obtain ⟨rfl, rfl⟩ := pure_ok.1 h
      exact .tables hat hc (by simpa using hb) ht
    | true =>
      obtain ⟨_, _, ha, h⟩ := bind_ok.1 h
      obtain ⟨c', hc', rfl⟩ := advance_ok.1 ha
      obtain ⟨chain, w₃, hn, h⟩ := bind_ok.1 h
      obtain ⟨_, w₄, hj, h⟩ := bind_ok.1 h
      obtain ⟨rfl, rfl⟩ := pure_ok.1 h
      exact .query hat hc (hb.1 rfl) hc' hn hj

theorem not_question_of_atSubQuery {c c' : Cursor} (h : AtSubQuery c) (hc : c.advance = .ok c') :
    c'.current.type ≠ .symbol .question := by
  obtain ⟨-, t, ht, htype⟩ := h
  obtain ⟨x, hx, rfl⟩ := Cursor.advance_ok.1 hc
  obtain rfl := Except.ok.inj (ht.symm.trans hx)
  simp [htype]

theorem fromClause_progress {n : ℕ} {w w' : Workspace Query} {inner : List Query} (hT : T)
    (hP : QueryPlaces rule P) (hw : P .selected w.cursor)
    (hsub : ∀ {v v' : Workspace Query} {inner : List Query}, P .query v.cursor →
      v.cursor.current.type ≠ .symbol .question → queryLevel rule n v = .ok inner v' →
      LevelProgress rule (Names P) T C v v' inner)
    (h : fromClause rule (queryLevel rule n) w = .ok inner w') :
    LevelProgress rule (Names P) T C w w' inner := by
  have afterFrom : ∀ {c : Cursor}, w.cursor.isAtAny [.keyword .FROM] = true →
      w.cursor.advance = .ok c → QueryProgress (Names P) T C w ⟨c, w.draft⟩ :=
    fun hat hc => Course.advance (not_question_of_mem (by decide) hat) hc
  cases fromClause_run h with
  | absent => exact .of_query (Course.refl w)
  | tables hat hc hsub ht =>
    have hplace := hP.fromTable hw hat hc hsub
    have h₁ := onFindings_progress (C := C) ht fun hv hr =>
      tableReferences_progress hT hP.toTablePlaces (hv ▸ hplace) hr
    exact .of_query (Course.trans (afterFrom hat hc) h₁.1)
  | @query c c' w₁ _ _ hat hc hopen hc' hn hj =>
    have hplace := hP.fromQuery hw hat hc hopen hc'
    have hselect := not_question_of_atSubQuery hopen hc'
    have hparen : c.isAt (.symbol .question) = false := isAt_eq_false hopen.1 (by simp)
    have h₁ : QueryProgress (Names P) T C ⟨c, w.draft⟩ ⟨c', w.draft⟩ :=
      Course.advance (w := ⟨c, w.draft⟩) hparen hc'
    have h₂ := nestedQuery_progress (T := T) (C := C)
      (fun hs hv => hsub (hv ▸ hplace) (by rw [hv]; exact hselect) hs) hn
    obtain ⟨q, chain, c₁, c₂, hs, hat', hc₂, -, rfl⟩ := nestedQuery_ok hn
    have h₃ : QueryProgress (Names P) T C _ w' :=
      behindNestedQuery_progress hT hP.toTablePlaces
        (fun ha => hP.closed hplace hs hat' hc₂ ha) hj
    exact h₂.extend (Course.trans (afterFrom hat hc) h₁) h₃

/-- A query is read up to its select list, with all that FROM contains, with its conditions and with
what may follow them. -/
theorem queryLevel_succ_ok {n : ℕ} {w w' : Workspace Query} {inner : List Query}
    (h : queryLevel rule (n + 1) w = .ok inner w') : ∃ w₁ w₂ w₃,
      queryHead rule w = .ok () w₁ ∧ fromClause rule (queryLevel rule n) w₁ = .ok inner w₂ ∧
        onFindings (whereClause rule) w₂ = .ok () w₃ ∧ queryTail w₃ = .ok () w' := by
  obtain ⟨_, w₁, hhead, h⟩ := bind_ok.1 h
  obtain ⟨_, w₂, hfrom, h⟩ := bind_ok.1 h
  obtain ⟨_, w₃, hwhere, h⟩ := bind_ok.1 h
  obtain ⟨_, w₄, htail, h⟩ := bind_ok.1 h
  obtain ⟨rfl, rfl⟩ := pure_ok.1 h
  exact ⟨w₁, w₂, w₃, hhead, hfrom, hwhere, htail⟩

/-- A query is read forward with all that is inside it. -/
theorem queryLevel_progress (hT : T) (hC : C) (hP : QueryPlaces rule P) {n : ℕ}
    {w w' : Workspace Query} {inner : List Query} (hw : P .query w.cursor)
    (hq : w.cursor.current.type ≠ .symbol .question)
    (h : queryLevel rule n w = .ok inner w') : LevelProgress rule (Names P) T C w w' inner := by
  induction n generalizing w w' inner with
  | zero => exact (throw_ok.1 h).elim
  | succ n ih =>
    obtain ⟨w₁, w₂, w₃, h₁, h₂, h₃, h₄⟩ := queryLevel_succ_ok h
    have hfrom := fromClause_progress (C := C) hT hP (hP.head hw h₁) ih h₂
    have hhead : QueryProgress (Names P) T C w w₁ := queryHead_progress hq h₁
    have hwhere : QueryProgress (Names P) T C w₂ w₃ :=
      Follows.onFindings (whereClause_progress hC rule) h₃
    exact hfrom.extend hhead (Course.trans hwhere (queryTail_progress h₄))

end SqlFront

import SqlFront.Proofs.Progress.Change
import SqlFront.Proofs.Progress.Statement

/-!
# The places of names

In a SELECT, INSERT, UPDATE or DELETE the names of tables stand in certain places only. The places
are those that the readers of its clauses come to, one after the other, from the beginning of the
text on.
-/

set_option autoImplicit false

namespace SqlFront

open SqlFront.Parser SqlFront.Clause SqlFront.Reading

inductive Stands (rule : ShardingRule) (start : Cursor) : Place → Cursor → Prop
  /-- A query begins with the text. -/
  | select {c : Cursor} :
      start.advance = .ok c → c.isAt (.keyword .SELECT) = true → Stands rule start .query c
  /-- The table of an UPDATE comes behind its modifiers. -/
  | update {c c₁ : Cursor} {f : Findings} {w : Workspace Findings} {u : Unit} :
      start.advance = .ok c → c.isAt (.keyword .UPDATE) = true → c.advance = .ok c₁ →
      skipAll (keywordTypes c₁.dialect.grammar.updateModifiers) ⟨c₁, f⟩ = .ok u w →
      Stands rule start .table w.cursor
  /-- The table of a DELETE comes behind its modifiers. -/
  | delete {c c₁ : Cursor} {f : Findings} {w : Workspace Findings} {u : Unit} :
      start.advance = .ok c → c.isAt (.keyword .DELETE) = true → c.advance = .ok c₁ →
      skipAll (keywordTypes c₁.dialect.grammar.deleteModifiers) ⟨c₁, f⟩ = .ok u w →
      Stands rule start .table w.cursor
  /-- Behind the first word of an INSERT. -/
  | insert {c c₁ : Cursor} : start.advance = .ok c → c.isAt (.keyword .INSERT) = true →
      c.advance = .ok c₁ → Stands rule start .beforeInto c₁
  | beforeInto {c c' : Cursor} : Stands rule start .beforeInto c →
      c.isAtAny [.keyword .INTO] = false → c.advance = .ok c' → Stands rule start .beforeInto c'
  | into {c c' : Cursor} : Stands rule start .beforeInto c → c.isAt (.keyword .INTO) = true →
      c.advance = .ok c' → Stands rule start .table c'
  | head {w w' : Workspace Query} {u : Unit} : Stands rule start .query w.cursor →
      queryHead rule w = .ok u w' → Stands rule start .selected w'.cursor
  | fromTable {c c' : Cursor} : Stands rule start .selected c →
      c.isAtAny [.keyword .FROM] = true → c.advance = .ok c' → ¬AtSubQuery c' →
      Stands rule start .table c'
  | fromQuery {c c₁ c' : Cursor} : Stands rule start .selected c →
      c.isAtAny [.keyword .FROM] = true → c.advance = .ok c₁ → AtSubQuery c₁ →
      c₁.advance = .ok c' → Stands rule start .query c'
  | closed {n : ℕ} {c c₁ c₂ : Cursor} {q q₁ q₂ : Query} {inner : List Query} {a : Option String}
      {w : Workspace Query} : Stands rule start .query c →
      queryLevel rule n ⟨c, q⟩ = .ok inner ⟨c₁, q₁⟩ → c₁.isAt (.symbol .rightParen) = true →
      c₁.advance = .ok c₂ → alias? ⟨c₂, q₂⟩ = .ok a w → Stands rule start .behind w.cursor
  | table {w w' : Workspace Findings} {single : Bool} {u : Unit} :
      Stands rule start .table w.cursor → tableFactor rule single w = .ok u w' →
      Stands rule start .behind w'.cursor
  | join {w w' : Workspace Findings} : Stands rule start .behind w.cursor →
      joinType w = .ok true w' → Stands rule start .joined w'.cursor
  | joined {w w₁ w' : Workspace Findings} {u u' : Unit} : Stands rule start .joined w.cursor →
      tableFactor rule false w = .ok u w₁ → joinCondition w₁ = .ok u' w' →
      Stands rule start .behind w'.cursor
  | comma {c c' : Cursor} : Stands rule start .behind c → c.isAtAny [.symbol .comma] = true →
      c.advance = .ok c' → Stands rule start .table c'

namespace Stands

variable {rule : ShardingRule} {start c : Cursor} {p : Place}

theorem queryPlaces : QueryPlaces rule (Stands rule start) where
  table := .table
  join := .join
  joined := .joined
  comma := .comma
  head := .head
  fromTable := .fromTable
  fromQuery := .fromQuery
  closed := .closed

theorem insertPlaces : InsertPlaces (Stands rule start) where
  beforeInto := .beforeInto
  into := .into

theorem query_select (h : Stands rule start .query c) : c.current.type = .keyword .SELECT := by
  cases h with
  | select _ hat => exact Cursor.isAt_iff.1 hat
  | fromQuery _ _ _ hopen hc =>
    obtain ⟨t, ht, rfl⟩ := Cursor.advance_ok.1 hc
    obtain ⟨-, t', ht', htype⟩ := hopen
    rw [ht] at ht'
    cases ht'
    exact htype

/-! ## The word in front of a name -/

def nameWords (g : Grammar) : List TokenType :=
  .symbol .comma :: keywordTypes ([.FROM, .INTO, .UPDATE, .DELETE] ++ joinWords ++ g.joins ++
    g.updateModifiers ++ g.deleteModifiers)

def BehindWord (start c : Cursor) : Prop :=
  ∃ c₀, start.Reaches c₀ ∧ c₀.advance = .ok c ∧ c₀.isAtAny (nameWords c₀.dialect.grammar) = true

theorem BehindWord.reaches (h : BehindWord start c) : start.Reaches c := by
  obtain ⟨c₀, h₀, hc, -⟩ := h
  exact h₀.trans (Cursor.Reaches.single hc)

theorem behindWord_of_mem {c' : Cursor} {ts : List TokenType} (hc : start.Reaches c)
    (hat : c.isAtAny ts = true) (hts : ∀ t ∈ ts, t ∈ nameWords c.dialect.grammar)
    (h : c.advance = .ok c') : BehindWord start c' :=
  ⟨c, hc, h, Cursor.isAtAny_iff.2 (hts _ (Cursor.isAtAny_iff.1 hat))⟩

theorem skipAll_behindWord {ts : List TokenType} {w w' : Workspace Findings} {u : Unit}
    (hts : ∀ t ∈ ts, t ∈ nameWords w.cursor.dialect.grammar) (hw : start.Reaches w.cursor)
    (hbehind : BehindWord start w.cursor ∨ w.cursor.isAtAny ts = true)
    (h : skipAll ts w = .ok u w') : BehindWord start w'.cursor := by
  refine whileM_induct
    (I := fun v => w.cursor.Reaches v.cursor ∧ (v.cursor = w.cursor ∨ BehindWord start v.cursor))
    (Q := fun v => BehindWord start v.cursor) ?_ ?_ ⟨Cursor.Reaches.refl _, Or.inl rfl⟩ h
  · rintro v v₁ v₂ u ⟨hv, -⟩ hs hu
    obtain ⟨hat, c₁, hc₁, rfl⟩ := skipIf_ok.1 hs
    obtain ⟨-, rfl⟩ := pure_ok.1 hu
    refine ⟨hv.trans (Cursor.Reaches.single hc₁), Or.inr ?_⟩
    refine behindWord_of_mem (hw.trans hv) hat ?_ hc₁
    rw [hv.dialect]
    exact hts
  · rintro v v₁ ⟨hv, hor⟩ hs
    obtain ⟨hat, rfl⟩ := skipIf_ok.1 hs
    rcases hor with heq | hb
    · rw [heq] at hat ⊢
      rcases hbehind with hb | hat'
      · exact hb
      · rw [hat] at hat'
        cases hat'
    · exact hb

theorem keyword_behindWord {c' : Cursor} {k : Keyword} (hc : start.Reaches c)
    (hat : c.isAtAny [.keyword k] = true) (hk : k ∈ [Keyword.FROM, .INTO, .UPDATE, .DELETE])
    (h : c.advance = .ok c') : BehindWord start c' := by
  refine behindWord_of_mem hc hat (fun t ht => ?_) h
  obtain rfl := List.mem_singleton.1 ht
  refine List.mem_cons_of_mem _ (List.mem_map_of_mem ?_)
  exact List.mem_append_left _ (List.mem_append_left _ (List.mem_append_left _
    (List.mem_append_left _ hk)))

theorem modifiers_behindWord {c₁ : Cursor} {k : Keyword} {ks : List Keyword} {f : Findings}
    {w : Workspace Findings} {u : Unit} (hc : start.advance = .ok c)
    (hat : c.isAt (.keyword k) = true) (hk : k ∈ [Keyword.FROM, .INTO, .UPDATE, .DELETE])
    (hc₁ : c.advance = .ok c₁)
    (hks : ∀ t ∈ keywordTypes ks, t ∈ nameWords c₁.dialect.grammar)
    (h : skipAll (keywordTypes ks) ⟨c₁, f⟩ = .ok u w) : BehindWord start w.cursor := by
  have hat : c.isAtAny [.keyword k] = true := by
    simpa [Cursor.isAtAny, Cursor.isAt] using hat
  have hb := keyword_behindWord (Cursor.Reaches.single hc) hat hk hc₁
  exact skipAll_behindWord (w := ⟨c₁, f⟩) hks hb.reaches (Or.inl hb) h

/-- Every place is reached, and the names of tables stand behind certain words. -/
theorem reached (h : Stands rule start p c) :
    start.Reaches c ∧ (p = .table ∨ p = .joined → BehindWord start c) := by
  have named : ∀ {p : Place} {c : Cursor}, BehindWord start c →
      start.Reaches c ∧ (p = .table ∨ p = .joined → BehindWord start c) :=
    fun hb => ⟨hb.reaches, fun _ => hb⟩
  induction h with
  | select hc => exact ⟨Cursor.Reaches.single hc, by simp⟩
  | @update c c₁ f w u hc hat hc₁ hs =>
    refine named (modifiers_behindWord hc hat (by decide) hc₁ (fun t ht => ?_) hs)
    obtain ⟨k, hk, rfl⟩ := List.mem_map.1 ht
    refine List.mem_cons_of_mem _ (List.mem_map_of_mem ?_)
    exact List.mem_append_left _ (List.mem_append_right _ hk)
  | @delete c c₁ f w u hc hat hc₁ hs =>
    refine named (modifiers_behindWord hc hat (by decide) hc₁ (fun t ht => ?_) hs)
    obtain ⟨k, hk, rfl⟩ := List.mem_map.1 ht
    exact List.mem_cons_of_mem _ (List.mem_map_of_mem (List.mem_append_right _ hk))
  | insert hc hat hc₁ =>
    exact ⟨(Cursor.Reaches.single hc).trans (Cursor.Reaches.single hc₁), by simp⟩
  | beforeInto _ _ hc ih => exact ⟨ih.1.trans (Cursor.Reaches.single hc), by simp⟩
  | into _ hat hc ih =>
    refine named (keyword_behindWord (k := .INTO) ih.1 ?_ (by decide) hc)
    simpa [Cursor.isAtAny, Cursor.isAt] using hat
  | head hq hr ih =>
    have hp := queryHead_progress (N := fun _ => True) (T := True) (C := True)
      (by rw [hq.query_select]; simp) hr
    exact ⟨ih.1.trans hp.found.reaches, by simp⟩
  | fromTable _ hat hc _ ih => exact named (keyword_behindWord ih.1 hat (by decide) hc)
  | fromQuery _ _ hc _ hc' ih =>
    exact ⟨(ih.1.trans (Cursor.Reaches.single hc)).trans (Cursor.Reaches.single hc'), by simp⟩
  | closed hq hr _ hc ha ih =>
    have hlevel := queryLevel_progress (T := True) (C := True) trivial trivial
      Stands.queryPlaces hq (by rw [hq.query_select]; simp) hr
    have halias := follows_alias? (R := QueryProgress (fun _ => True) True True) ha
    exact ⟨((ih.1.trans hlevel.1.found.reaches).trans (Cursor.Reaches.single hc)).trans
      halias.found.reaches, by simp⟩
  | table _ hr ih =>
    have hp := tableFactor_progress (N := fun _ => True) (T := True) (C := True) trivial trivial hr
    exact ⟨ih.1.trans hp.reaches, by simp⟩
  | @join w w' _ hr ih =>
    obtain ⟨g, _, hg, h⟩ := bind_ok.1 hr
    obtain ⟨rfl, rfl⟩ := grammar_ok.1 hg
    obtain ⟨b, _, hb, h⟩ := bind_ok.1 h
    obtain ⟨hat, rfl⟩ := isAtAny_ok.1 hb
    cases b with
    | false => cases h
    | true =>
      obtain ⟨u, _, hs, h⟩ := bind_ok.1 h
      obtain ⟨-, rfl⟩ := pure_ok.1 h
      refine named (skipAll_behindWord (fun t ht => ?_) ih.1 (Or.inr hat) hs)
      obtain ⟨k, hk, rfl⟩ := List.mem_map.1 ht
      refine List.mem_cons_of_mem _ (List.mem_map_of_mem (List.mem_append_left _
        (List.mem_append_left _ ?_)))
      rcases List.mem_append.1 hk with hk | hk
      · exact List.mem_append_left _ (List.mem_append_right _ hk)
      · exact List.mem_append_right _ hk
  | joined _ hr hj ih =>
    have hp := tableFactor_progress (N := fun _ => True) (T := True) (C := True) trivial trivial hr
    have hp' := follows_joinCondition (R := Progress (fun _ => True) True True) hj
    exact ⟨(ih.1.trans hp.reaches).trans hp'.reaches, by simp⟩
  | comma _ hat hc ih =>
    refine named (behindWord_of_mem ih.1 hat (fun t ht => ?_) hc)
    obtain rfl := List.mem_singleton.1 ht
    exact List.mem_cons_self

theorem insert_of_beforeInto (h : Stands rule start .beforeInto c) :
    ∃ c₁, start.advance = .ok c₁ ∧ c₁.isAt (.keyword .INSERT) = true := by
  generalize hp : Place.beforeInto = p at h
  induction h with
  | insert hc hat => exact ⟨_, hc, hat⟩
  | beforeInto _ _ _ ih => exact ih rfl
  | _ => cases hp

end Stands

end SqlFront

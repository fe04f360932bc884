import SqlFront.Clause.TableReference
import SqlFront.Proofs.Progress.SelectList

/-!
# Table references

The name of a table is taken as it stands. The places where a name comes are closed under what the
readers of table references do between two of them.
-/

set_option autoImplicit false

namespace SqlFront

open SqlFront.Parser SqlFront.Clause

inductive Place
  /-- The first word of a query. -/
  | query
  /-- Behind the select list of a query. -/
  | selected
  /-- The name of a table, at the beginning of FROM, behind a comma or where a statement has one
  table. -/
  | table
  /-- The name of a table that is joined. -/
  | joined
  /-- Behind a table reference with its joins so far. -/
  | behind
  /-- Between `INSERT` and `INTO`. -/
  | beforeInto
deriving DecidableEq

def Names (P : Place → Cursor → Prop) (c : Cursor) : Prop :=
  P .table c ∨ P .joined c ∨ P .beforeInto c

structure TablePlaces (rule : ShardingRule) (P : Place → Cursor → Prop) : Prop where
  /-- Behind the reference to a table. -/
  table {w w' : Workspace Findings} {single : Bool} {u : Unit} :
    P .table w.cursor → tableFactor rule single w = .ok u w' → P .behind w'.cursor
  /-- Behind the words of a join. -/
  join {w w' : Workspace Findings} :
    P .behind w.cursor → joinType w = .ok true w' → P .joined w'.cursor
  /-- Behind a joined table and the condition of its join. -/
  joined {w w₁ w' : Workspace Findings} {u u' : Unit} : P .joined w.cursor →
    tableFactor rule false w = .ok u w₁ → joinCondition w₁ = .ok u' w' → P .behind w'.cursor
  /-- Behind a comma. -/
  comma {c c' : Cursor} :
    P .behind c → c.isAtAny [.symbol .comma] = true → c.advance = .ok c' → P .table c'

variable {N : Cursor → Prop} {T C : Prop} {rule : ShardingRule}

/-- Every place may be that of a name. -/
theorem tablePlaces_all : TablePlaces rule fun _ _ => True :=
  ⟨fun _ _ => trivial, fun _ _ => trivial, fun _ _ _ => trivial, fun _ _ _ => trivial⟩

theorem names_all (c : Cursor) : Names (fun _ _ => True) c := Or.inl trivial

/-! ## One table -/

theorem skipIndexHints_progress : Follows (Progress N T C) skipIndexHints := by
  intro w u w' h
  obtain ⟨g, _, hg, h⟩ := bind_ok.1 h
  obtain ⟨rfl, rfl⟩ := grammar_ok.1 hg
  split at h
  · next hh =>
    refine whileM_induct (I := fun v => Progress N T C w v) (Q := fun v => Progress N T C w v)
      ?_ ?_ (.refl w) h
    · intro v v₁ v₂ u hv hs hb
      obtain ⟨hat, c₁, hc₁, rfl⟩ := skipIf_ok.1 hs
      have hd : v.cursor.dialect.grammar.indexHints = true := by
        rw [hv.reaches.dialect]
        exact hh
      obtain ⟨b, v₂', hb', hb⟩ := bind_ok.1 hb
      obtain ⟨b'', v₃, hfor, hb⟩ := bind_ok.1 hb
      have hp : Progress N T C v ⟨c₁, v.draft⟩ :=
        .advance (not_question_of_mem (question_not_mem_keywords _) hat) hc₁
      have hp₂ : Progress N T C v v₂' := hp.trans (follows_skipKeywords _ hb')
      cases b'' with
      | false =>
        have hp₃ : Progress N T C v v₃ := hp₂.trans (follows_skipKeyword _ hfor)
        exact (hv.trans hp₃).trans ((follows_skipParentheses.bind fun _ => .pure _) hb)
      | true =>
        obtain ⟨hat₂, c₂, hc₂, rfl⟩ := skipIf_ok.1 hfor
        obtain ⟨u', v₄, ha, hb⟩ := bind_ok.1 hb
        obtain ⟨c₃, hc₃, rfl⟩ := advance_ok.1 ha
        have hv₂ : v₂'.draft = v.draft ∧ (v₂'.cursor = c₁ ∨
            c₁.isAtAny (keywordTypes [.INDEX, .KEY]) = true ∧ c₁.advance = .ok v₂'.cursor) := by
          obtain ⟨hat', h'⟩ := skipIf_ok.1 hb'
          cases b with
          | false =>
            obtain rfl := h'
            exact ⟨rfl, Or.inl rfl⟩
          | true =>
            obtain ⟨c, hc, rfl⟩ := h'
            exact ⟨rfl, Or.inr ⟨hat', hc⟩⟩
        have hi : Introduces v.cursor c₂ := by
          refine .hint hd hat hc₁ hv₂.2 ?_ hc₂
          rw [Cursor.isAtAny_iff] at hat₂
          simpa [Cursor.isAt_iff] using hat₂
        have hp₄ : Progress N T C v ⟨c₃, v.draft⟩ := .move (.introduced hi hc₃)
        rw [hv₂.1] at hb
        refine (hv.trans hp₄).trans (?_ : Progress N T C _ _)
        refine (?_ : Follows (Progress N T C) _) hb
        exact (follows_skipKeyword _).bind fun _ => follows_skipParentheses.bind fun _ => .pure _
    · intro v v₁ hv hs
      obtain ⟨-, rfl⟩ := skipIf_ok.1 hs
      exact hv
  · obtain ⟨-, rfl⟩ := pure_ok.1 h
    exact .refl _

theorem tableToken_ok {w w' : Workspace Findings} {t : Token} (h : tableToken w = .ok t w') :
    t = w.cursor.current ∧ ∃ c, w.cursor.advance = .ok c ∧ w' = ⟨c, w.draft⟩ := by
  simp only [tableToken, bind_ok, current_ok, advance_ok, isAt_ok] at h
  obtain ⟨_, _, ⟨rfl, rfl⟩, u, _, ⟨c, hc, rfl⟩, b, _, ⟨-, rfl⟩, h⟩ := h
  split at h
  · obtain ⟨_, _, ht, -⟩ := bind_ok.1 h
    exact (throw_ok.1 ht).elim
  · obtain ⟨rfl, rfl⟩ := pure_ok.1 h
    exact ⟨rfl, c, hc, rfl⟩

theorem recordTable_progress {w w' : Workspace Findings} {t : Table} (hT : T)
    (h : Progress N T C w w') : Progress N T C w ⟨w'.cursor, (w'.draft.addEdit
      (.table w.cursor.current.start w.cursor.current.literals)).addTable t⟩ :=
  (Progress.tableEdit h).trans (.tables hT)

theorem tableFactor_progress {single : Bool} {w : Workspace Findings} (hT : T)
    (hN : N w.cursor) : FollowsAt (Progress N T C) w (tableFactor rule single) := by
  intro u w' h
  obtain ⟨t, _, ht, h⟩ := bind_ok.1 h
  obtain ⟨rfl, c, hc, rfl⟩ := tableToken_ok ht
  obtain ⟨a, w₁, ha, h⟩ := bind_ok.1 h
  have h₁ : Progress N T C w w₁ :=
    (Progress.move (.name hN hc)).trans (follows_alias? (R := Progress N T C) ha)
  split at h
  · obtain ⟨_, _, hm, h⟩ := bind_ok.1 h
    obtain rfl := modifyDraft_ok.1 hm
    exact (recordTable_progress hT h₁).trans (skipIndexHints_progress h)
  · exact h₁.trans (skipIndexHints_progress h)

theorem bareTable_progress {w : Workspace Findings} (hT : T) (hN : N w.cursor) :
    FollowsAt (Progress N T C) w bareTable := by
  intro u w' h
  obtain ⟨t, _, ht, h⟩ := bind_ok.1 h
  obtain ⟨rfl, c, hc, rfl⟩ := tableToken_ok ht
  obtain rfl := modifyDraft_ok.1 h
  exact recordTable_progress hT (Progress.move (.name hN hc))

/-! ## Joins -/

theorem follows_joinType {R : Workspace Findings → Workspace Findings → Prop} [Stepwise R] :
    Follows R joinType := by
  refine follows_grammar.bind fun g => follows_isAtAny.bind fun _ => .ite ?_ (.pure _)
  exact (follows_skipAll _).bind fun _ => .pure _

theorem follows_joinCondition {R : Workspace Findings → Workspace Findings → Prop} [Expressive R] :
    Follows R joinCondition := by
  refine (follows_skipKeyword _).bind fun _ => .ite ?_ ?_
  · refine .discard (.separated (by decide) ?_)
    refine follows_expression.bind fun _ => (follows_skipIf (by decide)).bind fun _ => .ite ?_ ?_
    · refine (follows_expectSymbol (by decide)).bind fun _ => ?_
      exact follows_expression.bind fun _ => .pure _
    · exact follows_expression.bind fun _ => .pure _
  · refine (follows_skipKeyword _).bind fun _ => .ite ?_ (.pure _)
    exact follows_skipParentheses.bind fun _ => .pure _

variable {P : Place → Cursor → Prop}

theorem joins_progress {w w' : Workspace Findings} {u : Unit} (hT : T)
    (hP : TablePlaces rule P) (hw : P .behind w.cursor) (h : joins rule w = .ok u w') :
    Progress (Names P) T C w w' ∧ P .behind w'.cursor := by
  refine whileM_induct (I := fun v => Progress (Names P) T C w v ∧ P .behind v.cursor)
    (Q := fun v => Progress (Names P) T C w v ∧ P .behind v.cursor) ?_ ?_ ⟨.refl w, hw⟩ h
  · rintro v v₁ v₂ u ⟨hv, hb⟩ hj h
    obtain ⟨b, _, hat, h⟩ := bind_ok.1 h
    obtain ⟨-, rfl⟩ := isAt_ok.1 hat
    have hj' := hP.join hb hj
    have table : ∀ {v₂ : Workspace Findings}, (do tableFactor rule false; joinCondition) v₁ =
        .ok u v₂ → Progress (Names P) T C w v₂ ∧ P .behind v₂.cursor := by
      intro v₂ h
      obtain ⟨_, v₃, ht, h⟩ := bind_ok.1 h
      have h₁ : Progress (Names P) T C w v₁ := hv.trans (follows_joinType hj)
      have h₂ := h₁.trans (tableFactor_progress hT (Or.inr (Or.inl hj')) ht)
      exact ⟨h₂.trans (follows_joinCondition h), hP.joined hj' ht h⟩
    cases b with
    | true =>
      obtain ⟨_, _, hf, -⟩ := bind_ok.1 h
      exact (failAt_ok.1 hf).elim
    | false => exact table h
  · rintro v v₁ ⟨hv, hb⟩ hj
    have hj' : v₁ = v := by
      obtain ⟨g, _, hg, h⟩ := bind_ok.1 hj
      obtain ⟨-, rfl⟩ := grammar_ok.1 hg
      obtain ⟨b, _, hat, h⟩ := bind_ok.1 h
      obtain ⟨-, rfl⟩ := isAtAny_ok.1 hat
      cases b with
      | true =>
        obtain ⟨_, _, -, h⟩ := bind_ok.1 h
        cases h
      | false => exact (pure_ok.1 h).2.symm
    exact hj' ▸ ⟨hv, hb⟩

theorem tableReferences_progress {w w' : Workspace Findings} {single : Bool} {u : Unit} (hT : T)
    (hP : TablePlaces rule P) (hw : P .table w.cursor)
    (h : tableReferences rule single w = .ok u w') :
    Progress (Names P) T C w w' ∧ P .behind w'.cursor := by
  obtain ⟨t, _, ht, h⟩ := bind_ok.1 h
  obtain ⟨-, rfl⟩ := current_ok.1 ht
  obtain ⟨_, w₁, hd, h⟩ := bind_ok.1 h
  obtain ⟨xs, hs⟩ := discard_ok.1 hd
  have h₁ := (separated_induct
    (I := fun _ v => Progress (Names P) T C w v ∧ P .table v.cursor)
    (M := fun _ v => Progress (Names P) T C w v ∧ P .behind v.cursor) ?_ ?_ ⟨.refl w, hw⟩ hs).1
  · obtain ⟨f, _, hf, h⟩ := bind_ok.1 h
    obtain ⟨-, rfl⟩ := draft_ok.1 hf
    split at h
    · exact (throw_ok.1 h).elim
    · obtain ⟨-, rfl⟩ := pure_ok.1 h
      exact h₁
  · rintro before x v v' ⟨hv, ht⟩ hx
    obtain ⟨_, v₁, hf, hj⟩ := bind_ok.1 hx
    have hp := hv.trans (tableFactor_progress hT (Or.inl ht) hf)
    obtain ⟨hq, hb⟩ := joins_progress (C := C) hT hP (hP.table ht hf) hj
    exact ⟨hp.trans hq, hb⟩
  · rintro xs v c ⟨hv, hb⟩ hat hc
    refine ⟨hv.trans (.advance (not_question_of_mem (by decide) hat) hc), hP.comma hb hat hc⟩

end SqlFront

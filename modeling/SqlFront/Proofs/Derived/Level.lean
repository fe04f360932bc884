import SqlFront.Proofs.Cursor.Facing
import SqlFront.Proofs.Progress.Statement

/-!
# What holds of every query of a text

What the draft of a query begins with, what reading a select list or the clauses behind WHERE
keeps, and what does not depend on the findings, holds of every query that has been read in a text.
Where merging keeps it too, it holds of the query that columns are derived from.
-/

set_option autoImplicit false

namespace SqlFront

open SqlFront.Parser SqlFront.Clause SqlFront.Reading

variable {d : Dialect} {rule : ShardingRule} {catalog : Catalog} {sql : String}
  {P : Query → Prop} {w v : Workspace Query} {inner : List Query}

def Arrived (d : Dialect) (sql : String) (c : Cursor) : Prop :=
  ∃ c₀, (Cursor.ofText d sql).advance = .ok c₀ ∧ c₀.Reaches c

theorem Arrived.reaches {c c' : Cursor} (h : Arrived d sql c) (hc : c.Reaches c') :
    Arrived d sql c' := by
  obtain ⟨c₀, hc₀, h⟩ := h
  exact ⟨c₀, hc₀, h.trans hc⟩

theorem Arrived.text {c : Cursor} (h : Arrived d sql c) : c.text = sql.toList := by
  obtain ⟨c₀, hc₀, h⟩ := h
  rw [h.text, Cursor.advance_text hc₀]
  rfl

/-- A cursor faces the last tokens of the text. -/
theorem Arrived.dialect {c : Cursor} (h : Arrived d sql c) : c.dialect = d := by
  obtain ⟨c₀, hc₀, h⟩ := h
  rw [h.dialect, Cursor.advance_dialect hc₀]
  rfl

theorem Arrived.faces {c : Cursor} (h : Arrived d sql c) : ∃ us ts,
    (TokenStream.ofText d sql.toList).tokens = us ++ ts ∧ c.Faces ts := by
  obtain ⟨c₀, hc₀, h⟩ := h
  obtain ⟨ts, ⟨us, hus⟩, hts⟩ := (Cursor.ofText_faces hc₀).reaches h
  exact ⟨us, ts, hus.symm, hts⟩

def KeepsDraft (w v : Workspace Query) : Prop := v.draft = w.draft

instance : Stepwise KeepsDraft where
  refl _ := rfl
  trans h₁ h₂ := Eq.trans h₂ h₁
  advance _ _ := rfl

structure LevelInvariant (d : Dialect) (rule : ShardingRule) (sql : String) (P : Query → Prop) :
    Prop where
  start (n : ℕ) : P { findings := { kind := .dql, placeholders := n } }
  findings {q : Query} {f : Findings} : P q → P (setFindings q f)
  head {w v : Workspace Query} {u : Unit} : Arrived d sql w.cursor → P w.draft →
    w.cursor.current.type ≠ .symbol .question → queryHead rule w = .ok u v → P v.draft
  tail {w v : Workspace Query} {u : Unit} : Arrived d sql w.cursor → P w.draft →
    queryTail w = .ok u v → P v.draft

namespace LevelInvariant

theorem onFindings {α : Type} {p : Parser Findings α} {a : α} (hP : LevelInvariant d rule sql P)
    (hw : P w.draft) (h : Parser.onFindings p w = .ok a v) : P v.draft := by
  obtain ⟨c, f, -, rfl⟩ := onFindings_ok.1 h
  exact hP.findings hw

theorem behindNestedQuery {u : Unit} (hP : LevelInvariant d rule sql P) (hw : P w.draft)
    (h : Reading.behindNestedQuery rule w = .ok u v) : P v.draft := by
  obtain ⟨_, w₁, halias, h⟩ := bind_ok.1 h
  obtain ⟨_, w₂, hjoins, h⟩ := bind_ok.1 h
  obtain ⟨b, w₃, hcomma, h⟩ := bind_ok.1 h
  have h₁ : KeepsDraft w w₁ := follows_alias? halias
  have h₃ : KeepsDraft w₂ w₃ := follows_skipSymbol (by decide) hcomma
  have hw₂ : P w₂.draft := hP.onFindings (h₁.symm ▸ hw) hjoins
  have hw₃ : P w₃.draft := h₃.symm ▸ hw₂
  cases b with
  | true => exact hP.onFindings hw₃ h
  | false =>
    obtain ⟨-, rfl⟩ := pure_ok.1 h
    exact hw₃

theorem fromClause {sub : Parser Query (List Query)} (hP : LevelInvariant d rule sql P)
    (harrived : Arrived d sql w.cursor) (hw : P w.draft)
    (hsub : ∀ {x y : Workspace Query} {chain : List Query}, Arrived d sql x.cursor → P x.draft →
      x.cursor.current.type ≠ .symbol .question → sub x = .ok chain y →
      P y.draft ∧ ∀ q ∈ chain, P q)
    (h : Reading.fromClause rule sub w = .ok inner v) : P v.draft ∧ ∀ q ∈ inner, P q := by
  cases fromClause_run h with
  | absent => exact ⟨hw, fun _ hq => by simp at hq⟩
  | @tables c _ _ _ _ ht =>
    exact ⟨hP.onFindings (w := ⟨c, w.draft⟩) hw ht, fun _ hq => by simp at hq⟩
  | @query c c' _ _ _ _ hc hopen hc' hn hj =>
    obtain ⟨q, chain, c₁, c₂, hs, -, -, rfl, rfl⟩ := nestedQuery_ok hn
    have hreached : Arrived d sql c' :=
      harrived.reaches ((Cursor.Reaches.single hc).trans (.single hc'))
    obtain ⟨hq, hchain⟩ := hsub hreached (hP.start _) (not_question_of_atSubQuery hopen hc') hs
    have hbehind : P (setFindings w.draft
        { w.draft.findings with placeholders := q.findings.placeholders }) := hP.findings hw
    refine ⟨behindNestedQuery (w := ⟨c₂, _⟩) hP hbehind hj, fun r hr => ?_⟩
    rcases List.mem_cons.1 hr with rfl | hr
    · exact hq
    · exact hchain r hr

theorem queryLevel {n : ℕ} (hP : LevelInvariant d rule sql P) (harrived : Arrived d sql w.cursor)
    (hw : P w.draft) (hq : w.cursor.current.type ≠ .symbol .question)
    (h : Reading.queryLevel rule n w = .ok inner v) : P v.draft ∧ ∀ q ∈ inner, P q := by
  -- By induction on the levels, from the outside to the inside.
  induction n generalizing w v inner with
  | zero => exact (throw_ok.1 h).elim
  | succ n ih =>
    obtain ⟨w₁, w₂, w₃, h₁, h₂, h₃, h₄⟩ := queryLevel_succ_ok h
    have hhead : QueryProgress (fun _ => True) True True w w₁ := queryHead_progress hq h₁
    have hfrom := fromClause_progress (C := True) trivial (@queryPlaces_all rule) trivial
      (fun _ => queryLevel_progress trivial trivial queryPlaces_all trivial) h₂
    have hwhere : QueryProgress (fun _ => True) True True w₂ w₃ :=
      Follows.onFindings (whereClause_progress trivial rule) h₃
    have harrived₁ := harrived.reaches hhead.found.reaches
    have harrived₃ := harrived₁.reaches (hfrom.query.found.reaches.trans hwhere.found.reaches)
    obtain ⟨hw₂, hinner⟩ :=
      hP.fromClause harrived₁ (hP.head harrived hw hq h₁) (fun ha hx hq hs => ih ha hx hq hs) h₂
    exact ⟨hP.tail harrived₃ (hP.onFindings hw₂ h₃) h₄, hinner⟩

end LevelInvariant

theorem mergeChain_of_absorb {q : Query} (habsorb : ∀ {q r : Query}, P q → P r → P (q.absorb r))
    (hq : P q) (hinner : ∀ r ∈ inner, P r) : P (q.mergeChain inner) := by
  induction inner generalizing q with
  | nil => exact hq
  | cons r inner ih =>
    rw [List.forall_mem_cons] at hinner
    exact habsorb hq (ih hinner.1 hinner.2)

/-- An accepted SELECT is a query that the property holds of, with its derived columns and its edits
in order. -/
theorem LevelInvariant.select {s : SelectStatement} (hP : LevelInvariant d rule sql P)
    (habsorb : ∀ {q r : Query}, P q → P r → P (q.absorb r))
    (h : parse d rule catalog sql = .ok (.select s)) : ∃ q, P q ∧ s.query =
      { q.derive catalog with findings :=
        { (q.derive catalog).findings with edits := Edit.sorted (q.derive catalog).findings.edits } } := by
  obtain ⟨s₀, c', htext, hs⟩ := parse_ok.1 h
  obtain ⟨c, hc, hr⟩ := text_reads htext
  cases hr <;> cases hs
  case select n q inner hat hlevel =>
    obtain ⟨hq, hinner⟩ := hP.queryLevel (w := ⟨c, {}⟩) ⟨c, hc, .refl c⟩ (hP.start 0)
      (not_question_of_keyword hat) hlevel
    exact ⟨q.mergeChain inner, mergeChain_of_absorb habsorb hq hinner, rfl⟩

end SqlFront

import SqlFront.Proofs.Progress.Statement

/-!
# The queries of a text

A text that begins with SELECT is a query. Where the reading of a query comes to FROM with a
parenthesis and SELECT behind it, another query begins.
-/

set_option autoImplicit false

namespace SqlFront

open SqlFront.Parser SqlFront.Clause SqlFront.Reading

variable {d : Dialect} {rule : ShardingRule} {catalog : Catalog} {sql : String} {c c' : Cursor}
  {w w' : Workspace Query} {s : Statement}

/-- The reading of a query begins here, at the top of a text or as a sub-query in FROM. -/
inductive QueryAt (d : Dialect) (rule : ShardingRule) (sql : String) : Workspace Query → Prop
  | outermost {c : Cursor} : (Cursor.ofText d sql).advance = .ok c →
      c.isAt (.keyword .SELECT) = true → QueryAt d rule sql ⟨c, {}⟩
  | inFrom {w w' : Workspace Query} {c c' : Cursor} : QueryAt d rule sql w →
      queryHead rule w = .ok () w' → w'.cursor.isAt (.keyword .FROM) = true →
      w'.cursor.advance = .ok c → AtSubQuery c → c.advance = .ok c' →
      QueryAt d rule sql ⟨c', { findings :=
        { kind := .dql, placeholders := w'.draft.findings.placeholders } }⟩

theorem select_level (hp : parse d rule catalog sql = .ok s)
    (hc : (Cursor.ofText d sql).advance = .ok c) (hat : c.isAt (.keyword .SELECT) = true) :
    ∃ inner v, queryLevel rule c.moves ⟨c, {}⟩ = .ok inner v ∧
      s = .mapFindings (fun f => { f with edits := Edit.sorted f.edits })
        (.select ((SelectStatement.mk v.draft inner).merged.derive catalog)) := by
  obtain ⟨s₀, c', htext, rfl⟩ := parse_ok.1 hp
  obtain ⟨_, _, ha, h⟩ := bind_ok.1 htext
  obtain ⟨c₁, hc₁, rfl⟩ := advance_ok.1 ha
  obtain rfl := Except.ok.inj (hc.symm.trans hc₁)
  obtain ⟨t, _, ht, h⟩ := bind_ok.1 h
  obtain ⟨rfl, rfl⟩ := current_ok.1 ht
  rw [Cursor.isAt_iff.1 hat] at h
  obtain ⟨_, _, hcursor, h⟩ := bind_ok.1 h
  obtain ⟨rfl, rfl⟩ := cursor_ok.1 hcursor
  obtain ⟨⟨q, inner⟩, _, hi, h⟩ := bind_ok.1 h
  obtain ⟨c', hread, rfl⟩ := inside_ok.1 hi
  obtain ⟨rfl, -⟩ := pure_ok.1 h
  exact ⟨inner, ⟨c', q⟩, hread, rfl⟩

/-- Every query of an accepted text is read to its end. -/
theorem QueryAt.read (hw : QueryAt d rule sql w) (hp : parse d rule catalog sql = .ok s) :
    ∃ n inner v, queryLevel rule n w = .ok inner v := by
  -- By induction on its depth in the text.
  induction hw with
  | outermost hc hat =>
    obtain ⟨inner, v, hread, -⟩ := select_level hp hc hat
    exact ⟨_, inner, v, hread⟩
  | @inFrom w w' c c' _ hhead hfrom hc hopen hc' ih =>
    obtain ⟨n, inner, v, hread⟩ := ih
    cases n with
    | zero => exact (throw_ok.1 hread).elim
    | succ n =>
      obtain ⟨_, w₁, hw₁, h⟩ := bind_ok.1 hread
      obtain ⟨-, rfl⟩ := EStateM.Result.ok.inj (hhead.symm.trans hw₁)
      obtain ⟨chain, w₂, hclause, -⟩ := bind_ok.1 h
      cases fromClause_run hclause with
      | absent hat =>
        rw [Cursor.isAtAny_singleton, hfrom] at hat
        cases hat
      | tables _ hc₁ hclosed _ =>
        obtain rfl := Except.ok.inj (hc.symm.trans hc₁)
        exact (hclosed hopen).elim
      | query _ hc₁ _ hc₂ hn _ =>
        obtain rfl := Except.ok.inj (hc.symm.trans hc₁)
        obtain rfl := Except.ok.inj (hc'.symm.trans hc₂)
        obtain ⟨q, chain, c₃, _, hs, -⟩ := nestedQuery_ok hn
        exact ⟨n, chain, ⟨c₃, q⟩, hs⟩

theorem AtSubQuery.select (h : AtSubQuery c) (hc : c.advance = .ok c') :
    c'.current.type = .keyword .SELECT := by
  obtain ⟨-, t, ht, htype⟩ := h
  obtain ⟨x, hx, rfl⟩ := Cursor.advance_ok.1 hc
  obtain rfl := Except.ok.inj (ht.symm.trans hx)
  exact htype

theorem QueryAt.atSelect (hw : QueryAt d rule sql w) : w.cursor.isAt (.keyword .SELECT) = true := by
  cases hw with
  | outermost _ hat => exact hat
  | inFrom _ _ _ _ hopen hc' => exact Cursor.isAt_iff.2 (hopen.select hc')

/-- The reading of a text has come to each of its queries. -/
theorem QueryAt.reaches (hw : QueryAt d rule sql w) : (Cursor.ofText d sql).Reaches w.cursor := by
  induction hw with
  | outermost hc => exact .single hc
  | @inFrom w w' c c' hw hhead _ hc _ hc' ih =>
    have hread : QueryProgress (fun _ => True) True True w w' :=
      queryHead_progress (not_question_of_keyword hw.atSelect) hhead
    exact (ih.trans hread.found.reaches).trans ((Cursor.Reaches.single hc).trans (.single hc'))

end SqlFront

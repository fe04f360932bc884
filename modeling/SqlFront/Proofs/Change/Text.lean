import SqlFront.Proofs.Insertion.Statement

/-!
# Texts of UPDATE and DELETE

A text that begins with UPDATE or DELETE is read as the one or the other.
-/

set_option autoImplicit false

namespace SqlFront

open SqlFront.Parser SqlFront.Reading

variable {d : Dialect} {rule : ShardingRule} {catalog : Catalog} {sql : String} {c : Cursor}
  {t : Token} {ts tail : List Token} {Q : Workspace Findings → Prop} {F : Fault → Prop}

theorem settles_updateWord (ht : c.current.type = .keyword .UPDATE)
    (h : Settles ⟨c, { kind := .dml }⟩ (update rule) (fun _ v => Q v) F) :
    Settles ⟨c, ()⟩ (statement rule catalog) (fun s _ => ∃ v, Q v ∧ s = .update v.draft) F := by
  unfold statement
  apply settles_current.2
  rw [ht]
  unfold updateStatement
  apply settles_inside.2
  exact h.mono fun _ v hv => ⟨v, hv, rfl⟩

theorem settles_deleteWord (ht : c.current.type = .keyword .DELETE)
    (h : Settles ⟨c, { kind := .dml }⟩ (deletion rule) (fun _ v => Q v) F) :
    Settles ⟨c, ()⟩ (statement rule catalog) (fun s _ => ∃ v, Q v ∧ s = .delete v.draft) F := by
  unfold statement
  apply settles_current.2
  rw [ht]
  unfold deleteStatement
  apply settles_inside.2
  exact h.mono fun _ v hv => ⟨v, hv, rfl⟩

theorem passes_ofText (hts : (TokenStream.ofText d sql.toList).tokens = t :: ts ++ tail)
    (hend : tail = [] → ∃ t, (TokenStream.ofText d sql.toList).ending = .ok t) :
    ∃ c, (Cursor.ofText d sql).advance = .ok c ∧ c.Passes (t :: ts) tail := by
  obtain ⟨c, hc, hfaces⟩ := Cursor.ofText_first hts
  refine ⟨c, hc, hfaces, fun hnil => ?_⟩
  rw [Cursor.advance_ending hc]
  exact hend hnil

/-- A text whose first word begins a statement is accepted with it, or it is not accepted. -/
theorem parse_statement {P : Statement → Prop}
    (hts : (TokenStream.ofText d sql.toList).tokens = t :: ts ++ tail)
    (hend : tail = [] → ∃ t, (TokenStream.ofText d sql.toList).ending = .ok t)
    (h : ∀ c, (Cursor.ofText d sql).advance = .ok c → c.Passes (t :: ts) tail →
      Settles ⟨c, ()⟩ (statement rule catalog) (fun s _ => P s) F) :
    (∃ s, P s ∧ parse d rule catalog sql =
      .ok (s.mapFindings fun f => { f with edits := Edit.sorted f.edits })) ∨
      ∃ f, F f ∧ parse d rule catalog sql = .error f := by
  obtain ⟨c, hc, hp⟩ := passes_ofText hts hend
  have hadvance : Parser.advance (⟨Cursor.ofText d sql, ()⟩ : Workspace Unit) = .ok () ⟨c, ()⟩ :=
    Parser.advance_ok.2 ⟨c, hc, rfl⟩
  have htext : Settles ⟨Cursor.ofText d sql, ()⟩ (text rule catalog) (fun s _ => P s) F := by
    unfold text
    apply (settles_bind_ok hadvance).2
    exact h c hc hp
  rcases parse_of_settles htext with ⟨s, -, hs, hparse⟩ | hf
  · exact Or.inl ⟨s, hs, hparse⟩
  · exact Or.inr hf

end SqlFront

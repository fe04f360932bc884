import SqlFront.Proofs.Lexeme.Front
import SqlFront.Proofs.Merge
import SqlFront.Proofs.Progress.Change
import SqlFront.Proofs.Progress.Statement

/-!
# Edits of table names

An edit of a table name is made from one token: it has the place and the literals of that token.
Whether the text has these literals at this place depends on the kind of the token alone, since
strings leave out their quotes and the end of the text has no literals.
-/

set_option autoImplicit false

namespace SqlFront

open SqlFront.Parser SqlFront.Clause SqlFront.Reading

variable {d : Dialect} {rule : ShardingRule} {catalog : Catalog} {sql : String} {s : Statement}

/-- The piece of the text that begins at the place and is as long as the literals is the literals,
and there is such a piece. -/
def ExactAt (sql : String) (place : ℕ) (literals : String) : Prop :=
  literals ≠ "" ∧ slice sql.toList place (place + literals.length) = literals

instance (place : ℕ) (literals : String) : Decidable (ExactAt sql place literals) :=
  inferInstanceAs (Decidable (_ ∧ _))

theorem exactAt_iff {place : ℕ} {l : String} :
    ExactAt sql place l ↔ InFront l (sql.toList.drop place) := by
  have hlen : l.length = l.toList.length := String.length_toList.symm
  rw [ExactAt, InFront, slice, List.drop_take, Nat.add_sub_cancel_left, hlen,
    List.prefix_iff_eq_take]
  refine and_congr_right fun _ => ?_
  constructor
  · intro h
    simpa using (congrArg String.toList h).symm
  · intro h
    rw [← h]
    simp

/-! ## The places of edits -/

def Placed (c : Cursor) (es : List Edit) : Prop :=
  ∀ ⦃p l⦄, Edit.table p l ∈ es →
    ∃ c', c.Reaches c' ∧ p = c'.current.start ∧ l = c'.current.literals

theorem Placed.of_progress {N : Cursor → Prop} {T C : Prop} {w w' : Workspace Findings}
    (h : Progress N T C w w') (hw : w.draft.edits = []) : Placed w.cursor w'.draft.edits := by
  intro p l he
  rcases h.tableEdit_token he with he | hp
  · rw [hw] at he
    cases he
  · exact hp

theorem Placed.behind {c c₁ : Cursor} {es : List Edit} (h : c.Reaches c₁) (hp : Placed c₁ es) :
    Placed c es := by
  intro p l he
  obtain ⟨c', hc', hp⟩ := hp he
  exact ⟨c', h.trans hc', hp⟩

/-! ## Statements -/

theorem LevelProgress.placed {N : Cursor → Prop} {T C : Prop} {w w' : Workspace Query}
    {inner : List Query} (h : LevelProgress rule N T C w w' inner)
    (hw : w.draft.findings.edits = []) :
    ∀ r ∈ w'.draft :: inner, Placed w.cursor r.findings.edits := by
  intro r hr
  rcases List.mem_cons.1 hr with rfl | hr
  · exact .of_progress h.query.found hw
  · obtain ⟨c, k, c', hm, hq, -⟩ := h.within.exists_of_mem hr
    exact (Placed.of_progress hq.found rfl).behind hm.reaches

/-- The edits of table names in a statement stand at tokens from its beginning on. -/
theorem Reads.placed {c c' : Cursor} (h : Reads rule catalog c c' s) : Placed c s.findings.edits := by
  cases h with
  | select hat hr =>
    have hlevel := queryLevel_progress (T := True) (C := True) trivial trivial
      (@queryPlaces_all rule) trivial (not_question_of_keyword hat) hr
    intro p l he
    have he := (Query.derive_extends catalog _).mem_edits he (by simp [Edit.tableName?])
    obtain ⟨r, hr, he⟩ := Query.mem_mergeChain_edits he
    exact hlevel.placed rfl r hr he
  | insert hat hr =>
    obtain ⟨c₁, hc₁⟩ : ∃ c₁, c.advance = .ok c₁ := by
      obtain ⟨_, _, ha, -⟩ := bind_ok.1 hr
      obtain ⟨c₁, hc₁, -⟩ := advance_ok.1 ha
      exact ⟨c₁, hc₁⟩
    have hp := insertion_progress (T := True) trivial insertPlaces_all
      (not_question_of_keyword hat) hc₁ trivial hr
    exact .of_progress hp.found rfl
  | update hat hr =>
    have hp := progress_of_where (T := True) (C := True) trivial (update_where trivial
      (@tablePlaces_all rule) (not_question_of_keyword hat) (fun _ _ => trivial) hr)
    exact .of_progress hp rfl
  | delete hat hr =>
    have hp := progress_of_where (T := True) (C := True) trivial (deletion_where trivial
      (@tablePlaces_all rule) (not_question_of_keyword hat) (fun _ _ => trivial) hr)
    exact .of_progress hp rfl
  | definition hc hr =>
    have hp := definition_progress (T := True) (C := True) names_all trivial _ hr
    exact (Placed.of_progress hp rfl).behind (Cursor.Reaches.single hc)
  | access hc hr =>
    have hp := access_progress (T := True) (C := True) names_all trivial _ hr
    exact (Placed.of_progress hp rfl).behind (Cursor.Reaches.single hc)
  | transaction =>
    intro p l he
    cases he
  | administration hr =>
    have hp := administration_progress (T := True) (C := True) names_all trivial _ hr
    exact .of_progress hp rfl

theorem mem_sorted_findings {e : Edit} (h : e ∈ (s.mapFindings fun f =>
    { f with edits := Edit.sorted f.edits }).findings.edits) : e ∈ s.findings.edits := by
  cases s <;> exact List.mem_mergeSort.1 h

/-- An edit of a table name has the place and the literals of a token of the text, or of its end.
The text has these literals at this place exactly if the token is one of the text and, where it is
a string, its own front repeats its literals. -/
theorem table_edit_exact_iff {place : ℕ} {literals : String}
    (h : parse d rule catalog sql = .ok s) (he : .table place literals ∈ s.findings.edits) :
    ∃ t : Token, (t ∈ (TokenStream.ofText d sql.toList).tokens ∨ t.type = .endOfText) ∧
      t.start = place ∧ t.literals = literals ∧
      (ExactAt sql place literals ↔ t ∈ (TokenStream.ofText d sql.toList).tokens ∧
        (t.type = .literal .chars → RepeatsFront literals (charAt (sql.toList.drop place) 0))) := by
  obtain ⟨s₀, c₁, ht, rfl⟩ := parse_ok.1 h
  obtain ⟨c, hc, hr⟩ := text_reads ht
  obtain ⟨c', hc', rfl, rfl⟩ := hr.placed (mem_sorted_findings he)
  have fronts : ∀ {t : Token}, t ∈ (TokenStream.ofText d sql.toList).tokens →
      ∃ x : Lexeme, t.type = x.type ∧ t.literals = x.literals ∧
        x.Fronts (sql.toList.drop t.start) :=
    fun ht => @TokenStream.scan_fronts _ _ _ _ 0 _ ht
  refine ⟨c'.current, ?_, rfl, rfl, ?_⟩
  · rcases Cursor.reached_current hc hc' with ht | ⟨k, hk⟩
    · exact Or.inl ht
    · exact Or.inr (by rw [hk]; rfl)
  rw [exactAt_iff]
  constructor
  · intro hin
    rcases Cursor.reached_current hc hc' with ht | ⟨k, hk⟩
    · obtain ⟨x, htype, hl, hx⟩ := fronts ht
      refine ⟨ht, fun hchars => ?_⟩
      rw [hl] at hin ⊢
      exact (hx.string (htype ▸ hchars)).1 hin
    · rw [hk] at hin
      exact (hin.1 rfl).elim
  · rintro ⟨ht, hstring⟩
    obtain ⟨x, htype, hl, hx⟩ := fronts ht
    by_cases hchars : c'.current.type = .literal .chars
    · have hrepeats := hstring hchars
      rw [hl] at hrepeats ⊢
      exact (hx.string (htype ▸ hchars)).2 hrepeats
    · rw [hl]
      exact hx.spelled (htype ▸ hchars)

/-- A name in backquotes is edited with its quotes. -/
theorem table_edit_exact_iff_quoted : ∃ s, parse .mysql ⟨[], some "ds"⟩ ⟨[]⟩
      "DELETE FROM \x60t_order\x60" = .ok s ∧ .table 12 "\x60t_order\x60" ∈ s.findings.edits ∧
    ∃ t : Token, (t ∈ (TokenStream.ofText .mysql "DELETE FROM \x60t_order\x60".toList).tokens ∨
        t.type = .endOfText) ∧
      t.start = 12 ∧ t.literals = "\x60t_order\x60" ∧
      (ExactAt "DELETE FROM \x60t_order\x60" 12 "\x60t_order\x60" ↔
        t ∈ (TokenStream.ofText .mysql "DELETE FROM \x60t_order\x60".toList).tokens ∧
        (t.type = .literal .chars → RepeatsFront "\x60t_order\x60"
          (charAt ("DELETE FROM \x60t_order\x60".toList.drop 12) 0))) := by
  obtain ⟨s, hs, hf⟩ := parse_of_view .mysql ⟨[], some "ds"⟩ ⟨[]⟩ "DELETE FROM \x60t_order\x60"
    (fun s => s.findings.edits) [.table 12 "\x60t_order\x60"] (by decide +kernel)
  have he : .table 12 "\x60t_order\x60" ∈ s.findings.edits := by simp [hf]
  exact ⟨s, hs, he, table_edit_exact_iff hs he⟩

/-- A name in double quotes is a string where they do not quote identifiers, and its edit begins at
the quote that its literals leave out. -/
theorem string_table_edit_inexact : ¬∀ (d : Dialect) (rule : ShardingRule) (catalog : Catalog)
    (sql : String) (s : Statement), parse d rule catalog sql = .ok s →
    ∀ place literals, .table place literals ∈ s.findings.edits → ExactAt sql place literals := by
  intro h
  obtain ⟨s, hs, hf⟩ := parse_of_view .mysql ⟨[], some "ds"⟩ ⟨[]⟩
    "DELETE FROM \"t_order\" WHERE user_id = 1" (fun s => s.findings.edits)
    [.table 12 "t_order"] (by decide +kernel)
  have he := h _ _ _ _ _ hs 12 "t_order" (by simp [hf])
  revert he
  decide +kernel

end SqlFront

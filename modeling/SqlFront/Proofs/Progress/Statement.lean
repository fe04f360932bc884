import SqlFront.Proofs.Progress.Insert
import SqlFront.Proofs.Progress.Select
import SqlFront.Reading.Basic

/-!
# Statements

A text is read by the reader of one kind of statement. What each of them may do to its findings is
known from its clauses.
-/

set_option autoImplicit false

namespace SqlFront

open SqlFront.Parser SqlFront.Clause SqlFront.Reading

variable {rule : ShardingRule} {catalog : Catalog}

inductive Reads (rule : ShardingRule) (catalog : Catalog) (c c' : Cursor) : Statement → Prop
  | select {n : ℕ} {q : Query} {inner : List Query} :
      c.isAt (.keyword .SELECT) = true → queryLevel rule n ⟨c, {}⟩ = .ok inner ⟨c', q⟩ →
      Reads rule catalog c c' (.select ((SelectStatement.mk q inner).merged.derive catalog))
  | insert {s : InsertStatement} : c.isAt (.keyword .INSERT) = true →
      insertion rule catalog ⟨c, {}⟩ = .ok () ⟨c', s⟩ → Reads rule catalog c c' (.insert s)
  | update {f : Findings} : c.isAt (.keyword .UPDATE) = true →
      update rule ⟨c, { kind := .dml }⟩ = .ok () ⟨c', f⟩ → Reads rule catalog c c' (.update f)
  | delete {f : Findings} : c.isAt (.keyword .DELETE) = true →
      deletion rule ⟨c, { kind := .dml }⟩ = .ok () ⟨c', f⟩ → Reads rule catalog c c' (.delete f)
  | definition {first : Keyword} {kind : DefinitionKind} {f : Findings} {c₁ : Cursor} :
      c.advance = .ok c₁ → definition first ⟨c₁, { kind := .ddl }⟩ = .ok kind ⟨c', f⟩ →
      Reads rule catalog c c' (.definition f kind)
  | access {kind : AccessKind} {p? : Option Principal} {f : Findings} {c₁ : Cursor} :
      c.advance = .ok c₁ → access rule kind ⟨c₁, { kind := .dcl }⟩ = .ok p? ⟨c', f⟩ →
      Reads rule catalog c c' (.access f kind p?)
  | transaction (kind : TransactionKind) :
      Reads rule catalog c c' (.transaction { kind := .tcl } kind)
  | administration {word : AdministrationWord} {kind : AdministrationKind} {f : Findings} :
      administration word ⟨c, { kind := .dal }⟩ = .ok kind ⟨c', f⟩ →
      Reads rule catalog c c' (.administration f kind)

theorem transaction_reads {kind : TransactionKind} {w w' : Workspace Unit} {s : Statement}
    (h : transactionStatement kind w = .ok s w') : Reads rule catalog w.cursor w'.cursor s := by
  obtain ⟨_, _, -, h⟩ := bind_ok.1 h
  obtain ⟨rfl, -⟩ := pure_ok.1 h
  exact .transaction kind

theorem administration_reads {word : AdministrationWord} {w w' : Workspace Unit} {s : Statement}
    (h : administrationStatement word w = .ok s w') : Reads rule catalog w.cursor w'.cursor s := by
  obtain ⟨⟨f, kind⟩, _, hi, h⟩ := bind_ok.1 h
  obtain ⟨c, hr, rfl⟩ := inside_ok.1 hi
  obtain ⟨rfl, rfl⟩ := pure_ok.1 h
  exact .administration hr

theorem bySecondWord_reads {first : Keyword} {w w' : Workspace Unit} {s : Statement}
    (h : bySecondWord rule first w = .ok s w') : Reads rule catalog w.cursor w'.cursor s := by
  obtain ⟨_, _, ha, h⟩ := bind_ok.1 h
  obtain ⟨c, hc, rfl⟩ := advance_ok.1 ha
  obtain ⟨t, _, ht, h⟩ := bind_ok.1 h
  obtain ⟨-, rfl⟩ := current_ok.1 ht
  split at h
  · obtain ⟨⟨f, kind⟩, _, hi, h⟩ := bind_ok.1 h
    obtain ⟨c', hr, rfl⟩ := inside_ok.1 hi
    obtain ⟨rfl, rfl⟩ := pure_ok.1 h
    exact .definition hc hr
  · split at h
    · cases hk : accessKind? first with
      | none =>
        simp only [accessStatement, hk] at h
        exact (failAt_ok.1 h).elim
      | some kind =>
        simp only [accessStatement, hk] at h
        obtain ⟨⟨f, p?⟩, _, hi, h⟩ := bind_ok.1 h
        obtain ⟨c', hr, rfl⟩ := inside_ok.1 hi
        obtain ⟨rfl, rfl⟩ := pure_ok.1 h
        exact .access hc hr
    · exact (failAt_ok.1 h).elim

theorem statement_reads {w : Workspace Unit} :
    Ensures w (statement rule catalog) fun s w' => Reads rule catalog w.cursor w'.cursor s := by
  refine .atCurrent ?_
  split <;> intro s w' h
  case h_1 hat =>
    obtain ⟨c, _, hc, h⟩ := bind_ok.1 h
    obtain ⟨rfl, rfl⟩ := cursor_ok.1 hc
    obtain ⟨⟨q, inner⟩, _, hi, h⟩ := bind_ok.1 h
    obtain ⟨c', hr, rfl⟩ := inside_ok.1 hi
    obtain ⟨rfl, rfl⟩ := pure_ok.1 h
    exact .select (Cursor.isAt_iff.2 hat) hr
  case h_2 hat =>
    obtain ⟨⟨i, u⟩, _, hi, h⟩ := bind_ok.1 h
    obtain ⟨c', hr, rfl⟩ := inside_ok.1 hi
    obtain ⟨rfl, rfl⟩ := pure_ok.1 h
    exact .insert (Cursor.isAt_iff.2 hat) hr
  case h_3 hat =>
    obtain ⟨⟨f, u⟩, _, hi, h⟩ := bind_ok.1 h
    obtain ⟨c', hr, rfl⟩ := inside_ok.1 hi
    obtain ⟨rfl, rfl⟩ := pure_ok.1 h
    exact .update (Cursor.isAt_iff.2 hat) hr
  case h_4 hat =>
    obtain ⟨⟨f, u⟩, _, hi, h⟩ := bind_ok.1 h
    obtain ⟨c', hr, rfl⟩ := inside_ok.1 hi
    obtain ⟨rfl, rfl⟩ := pure_ok.1 h
    exact .delete (Cursor.isAt_iff.2 hat) hr
  case h_14 => exact bySecondWord_reads h
  case h_15 => exact (failAt_ok.1 h).elim
  case h_10 | h_11 | h_12 | h_13 => exact administration_reads h
  all_goals exact transaction_reads h

/-- A reading of a whole text takes one step and reads a statement from there. -/
theorem text_reads {d : Dialect} {sql : String} {s : Statement} {c' : Cursor}
    (h : text rule catalog ⟨Cursor.ofText d sql, ()⟩ = .ok s ⟨c', ()⟩) :
    ∃ c, (Cursor.ofText d sql).advance = .ok c ∧ Reads rule catalog c c' s := by
  obtain ⟨_, _, ha, h⟩ := bind_ok.1 h
  obtain ⟨c, hc, rfl⟩ := advance_ok.1 ha
  exact ⟨c, hc, statement_reads h⟩

/-- An accepted text is read as a whole, and the edits of the statement are sorted. -/
theorem parse_ok {d : Dialect} {sql : String} {s : Statement} :
    parse d rule catalog sql = .ok s ↔ ∃ s₀ c',
      text rule catalog ⟨Cursor.ofText d sql, ()⟩ = .ok s₀ ⟨c', ()⟩ ∧
      s = s₀.mapFindings fun f => { f with edits := Edit.sorted f.edits } := by
  unfold parse
  cases h : text rule catalog ⟨Cursor.ofText d sql, ()⟩ with
  | error e w =>
    constructor
    · intro h
      cases h
    · rintro ⟨s₀, c', h, -⟩
      cases h
  | ok s₀ w =>
    constructor
    · intro hs
      exact ⟨s₀, w.cursor, rfl, (Except.ok.inj hs).symm⟩
    · rintro ⟨s₁, c', h, rfl⟩
      cases h
      rfl

def Statement.query? : Statement → Option Query
  | .select s => some s.query
  | _ => none

/-- A text whose statement looks like this is accepted. -/
theorem parse_of_view {α : Type} (d : Dialect) (rule : ShardingRule) (catalog : Catalog)
    (sql : String) (view : Statement → α) (a : α)
    (h : (parse d rule catalog sql).toOption.map view = some a) :
    ∃ s, parse d rule catalog sql = .ok s ∧ view s = a := by
  cases hs : parse d rule catalog sql with
  | ok s =>
    rw [hs] at h
    exact ⟨s, rfl, Option.some.inj h⟩
  | error fault =>
    rw [hs] at h
    cases h

theorem sorted_edits {s : Statement} :
    (s.mapFindings fun f => { f with edits := Edit.sorted f.edits }).findings.edits =
      Edit.sorted s.findings.edits := by
  cases s <;> rfl

def readEdits? (d : Dialect) (rule : ShardingRule) (catalog : Catalog) (sql : String) :
    Option (List Edit) :=
  match text rule catalog ⟨Cursor.ofText d sql, ()⟩ with
  | .ok s _ => some s.findings.edits
  | .error _ _ => none

theorem parse_of_readEdits {d : Dialect} {sql : String} {es : List Edit}
    (h : readEdits? d rule catalog sql = some es) :
    ∃ s, parse d rule catalog sql = .ok s ∧ s.findings.edits = Edit.sorted es := by
  unfold readEdits? at h
  split at h
  · next s₀ w' htext =>
    obtain rfl := Option.some.inj h
    exact ⟨_, parse_ok.2 ⟨s₀, w'.cursor, htext, rfl⟩, sorted_edits⟩
  · cases h

end SqlFront

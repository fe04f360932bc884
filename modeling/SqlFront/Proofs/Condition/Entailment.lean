import SqlFront.Proofs.Condition.Origin
import SqlFront.Proofs.Condition.Reading

/-!
# What conditions follow from

The conditions recorded for a formula follow from it, unless an OR is hidden behind the
parenthesis at which the reading of the formula stops. Then they follow exactly if they hold in
the rows that satisfy the formula by the alternative behind that OR.
-/

set_option autoImplicit false

namespace SqlFront

open SqlFront.Parser SqlFront.Clause SqlFront.Reading

def Formula.Entails (b : Formula) (s : Statement) : Prop :=
  ∀ ⦃V : Type⦄ (I : Values V) (row : Row V), b.Holds I row →
    ∀ x ∈ s.findings.conditions.toList, x.Holds I row

/-- Every row that the reading of the formula misses satisfies the conditions of the statement. -/
def Formula.MissedEntails (b : Formula) (s : Statement) : Prop :=
  ∀ ⦃V : Type⦄ (I : Values V) (row : Row V), b.Missed I row 0 →
    ∀ x ∈ s.findings.conditions.toList, x.Holds I row

theorem suffix_at_unique {α : Type} {p : α → Prop} {as bs us : List α} {x y : α} (hx : p x)
    (has : ∀ a ∈ as, ¬p a) (hbs : ∀ b ∈ bs, ¬p b) (h : x :: us <:+ as ++ y :: bs) :
    x :: us = y :: bs := by
  induction as with
  | nil =>
    rcases List.suffix_cons_iff.1 h with h | h
    · exact h
    · exact (hbs x (h.subset List.mem_cons_self) hx).elim
  | cons a as ih =>
    rcases List.suffix_cons_iff.1 h with h | h
    · obtain ⟨rfl, -⟩ := List.cons.inj h
      exact (has x List.mem_cons_self hx).elim
    · exact ih (fun b hb => has b (List.mem_cons_of_mem _ hb)) h

variable {rule : ShardingRule} {catalog : Catalog} {d : Dialect} {sql : String} {s : Statement}
  {b : Formula} {first wh : Token} {head body tail : List Token}

/-- The only WHERE clause of a text records conditions of the comparisons that are read of its
formula. -/
theorem formula_records {c : Cursor} (hwh : wh.type = .keyword .WHERE)
    (hhead : ∀ t ∈ head, t.type ≠ .keyword .WHERE)
    (htail : ∀ t ∈ body ++ tail, t.type ≠ .keyword .WHERE)
    (hb : b.Spells body) (hend : endsFormula tail = true)
    (hc : c.Faces (head ++ wh :: (body ++ tail))) :
    WhereRecords rule c fun x => b.outcome 0 ≠ .refused ∧
      ∃ k ∈ b.comparisonsRead 0, ∃ table, x = k.condition table := by
  intro w w' u hw h x hx
  obtain ⟨us, hus, hfaces⟩ := hc.reaches hw
  rcases whereClause_chain h with ⟨-, rfl⟩ | ⟨_, hat, -⟩
  · exact Or.inl hx
  · rw [hfaces.isAtAny, List.contains_eq_mem, decide_eq_true_eq, List.mem_singleton] at hat
    cases us with
    | nil => cases hat
    | cons t us =>
      have hplace := suffix_at_unique (p := fun t => t.type = .keyword .WHERE) hat hhead htail hus
      rw [hplace] at hfaces
      obtain ⟨hr, ho⟩ := whereClause_formula hb hwh hend hfaces h
      exact (hr x hx).imp_right fun hx => ⟨ho, hx⟩

/-- In an accepted SELECT, UPDATE or DELETE with a formula behind its only WHERE, the recorded
conditions follow from the formula when no OR is hidden, and in general exactly if they hold in the
rows that are missed. -/
theorem conditions_follow_iff
    (hts : (TokenStream.ofText d sql.toList).tokens = first :: (head ++ wh :: (body ++ tail)))
    (hfirst : first.type ∈ keywordTypes [.SELECT, .UPDATE, .DELETE])
    (hwh : wh.type = .keyword .WHERE)
    (honly : ∀ t ∈ head ++ (body ++ tail), t.type ≠ .keyword .WHERE)
    (hb : b.Spells body) (hend : endsFormula tail = true)
    (h : parse d rule catalog sql = .ok s) :
    (b.hidesOr 0 = false → b.Entails s) ∧ (b.Entails s ↔ b.MissedEntails s) := by
  obtain ⟨s₀, c', ht, rfl⟩ := parse_ok.1 h
  obtain ⟨c, hc, hr⟩ := text_reads ht
  have hfaces := Cursor.ofText_faces hc
  rw [hts] at hfaces
  have hinsert : c.isAt (.keyword .INSERT) = false := by
    rw [hfaces.isAt, frontType_cons, beq_eq_false_iff_ne]
    intro hi
    simp [hi, keywordTypes] at hfirst
  have hhead : ∀ t ∈ first :: head, t.type ≠ .keyword .WHERE := by
    intro t ht hw
    rcases List.mem_cons.1 ht with rfl | ht
    · simp [hw, keywordTypes] at hfirst
    · exact honly t (List.mem_append_left _ ht) hw
  have hrecords := hr.records (formula_records hwh hhead
    (fun t ht => honly t (List.mem_append_right _ ht)) hb hend hfaces) hinsert
  have hconditions : (s₀.mapFindings fun f =>
      { f with edits := Edit.sorted f.edits }).findings.conditions = s₀.findings.conditions := by
    cases s₀ <;> rfl
  simp only [Formula.Entails, Formula.MissedEntails, hconditions]
  -- A row that is not missed satisfies all that has been read.
  have read : ∀ {V : Type} {I : Values V} {row : Row V}, b.Holds I row →
      ∀ x ∈ s₀.findings.conditions.toList, x.Holds I row ∨
        b.outcome 0 ≠ .refused ∧ b.Missed I row 0 := by
    intro V I row hrow x hx
    obtain ⟨ho, k, hk, table, rfl⟩ := hrecords x hx
    rcases hrow.read_or_missed 0 with hread | hmissed
    · exact Or.inl (Comparison.condition_holds.2 (hread k hk))
    · exact Or.inr ⟨ho, hmissed⟩
  refine ⟨fun hhides V I row hrow x hx => ?_, fun hall V I row hm => hall I row hm.holds,
    fun hmissed V I row hrow x hx => ?_⟩
  · rcases read hrow x hx with hx | ⟨ho, hm⟩
    · exact hx
    · simp [hm.hidesOr ho] at hhides
  · rcases read hrow x hx with hx' | ⟨-, hm⟩
    · exact hx'
    · exact hmissed I row hm x hx

theorem Comparison.spells_equation {n e v : Token} (hn : n.isName = true)
    (he : e.type = .symbol .equal) (hv : v.isConstant = true) :
    (⟨none, n, .equal, [v]⟩ : Comparison).Spells [n, e, v] :=
  ⟨[n], [e, v], .alone hn, .equal he hv, rfl⟩

/-- The reading stops behind the second equation, and no OR comes behind it. -/
theorem conditions_follow_iff_stopped : ∃ (b : Formula) (s : Statement),
    parse .mysql ⟨[("t_order", ⟨["user_id"], none⟩)], none⟩ ⟨[]⟩
      "SELECT * FROM t_order WHERE (user_id = 1 AND status = 2)" = .ok s ∧
    b.outcome 0 = .stopped ∧ s.findings.conditions.toList.length = 1 ∧ b.hidesOr 0 = false ∧
    (b.hidesOr 0 = false → b.Entails s) ∧ (b.Entails s ↔ b.MissedEntails s) := by
  obtain ⟨s, hs, hlength⟩ := parse_of_view .mysql ⟨[("t_order", ⟨["user_id"], none⟩)], none⟩ ⟨[]⟩
    "SELECT * FROM t_order WHERE (user_id = 1 AND status = 2)"
    (fun s => s.findings.conditions.toList.length) 1 (by decide +kernel)
  have hts : (TokenStream.ofText .mysql
      "SELECT * FROM t_order WHERE (user_id = 1 AND status = 2)".toList).tokens =
      ⟨.keyword .SELECT, "SELECT", 0, 6⟩ :: ([⟨.symbol .star, "*", 7, 8⟩,
        ⟨.keyword .FROM, "FROM", 9, 13⟩, ⟨.literal .identifier, "t_order", 14, 21⟩] ++
      ⟨.keyword .WHERE, "WHERE", 22, 27⟩ :: ((⟨.symbol .leftParen, "(", 28, 29⟩ ::
        ([⟨.literal .identifier, "user_id", 29, 36⟩, ⟨.symbol .equal, "=", 37, 38⟩,
            ⟨.literal .int, "1", 39, 40⟩] ++
          ⟨.keyword .AND, "AND", 41, 44⟩ :: [⟨.literal .identifier, "status", 45, 51⟩,
            ⟨.symbol .equal, "=", 52, 53⟩, ⟨.literal .int, "2", 54, 55⟩]) ++
        [⟨.symbol .rightParen, ")", 55, 56⟩]) ++ [])) := by
    decide +kernel
  have hb := Formula.Spells.group (y := ⟨.symbol .rightParen, ")", 55, 56⟩)
    (x := ⟨.symbol .leftParen, "(", 28, 29⟩) rfl rfl (.and rfl rfl
      (x := ⟨.keyword .AND, "AND", 41, 44⟩) rfl
      (.comparison (Comparison.spells_equation
        (n := ⟨.literal .identifier, "user_id", 29, 36⟩) (e := ⟨.symbol .equal, "=", 37, 38⟩)
        (v := ⟨.literal .int, "1", 39, 40⟩) rfl rfl rfl))
      (.comparison (Comparison.spells_equation
        (n := ⟨.literal .identifier, "status", 45, 51⟩) (e := ⟨.symbol .equal, "=", 52, 53⟩)
        (v := ⟨.literal .int, "2", 54, 55⟩) rfl rfl rfl)))
  exact ⟨_, s, hs, rfl, hlength, rfl,
    conditions_follow_iff hts (by decide) rfl (by decide) hb rfl hs⟩

/-- Behind the parenthesis at which the reading stops, an OR lets rows in that the recorded
condition leaves out. -/
theorem hidden_or_not_entailed : ∃ (first wh : Token) (head body : List Token) (b : Formula)
    (s : Statement),
    (TokenStream.ofText .mysql
      "SELECT * FROM t_order WHERE (user_id = 1 AND status = 2) OR status = 3".toList).tokens =
      first :: (head ++ wh :: (body ++ [])) ∧
    wh.type = .keyword .WHERE ∧ b.Spells body ∧
    parse .mysql ⟨[("t_order", ⟨["user_id"], none⟩)], none⟩ ⟨[]⟩
      "SELECT * FROM t_order WHERE (user_id = 1 AND status = 2) OR status = 3" = .ok s ∧
    ¬b.Entails s := by
  obtain ⟨s, hs, hconditions⟩ := parse_of_view .mysql
    ⟨[("t_order", ⟨["user_id"], none⟩)], none⟩ ⟨[]⟩
    "SELECT * FROM t_order WHERE (user_id = 1 AND status = 2) OR status = 3"
    (fun s => s.findings.conditions.toList)
    [⟨⟨"user_id", "t_order"⟩, .equal, [literal ⟨.literal .int, "1", 39, 40⟩]⟩] (by decide +kernel)
  have hb := Formula.Spells.or (x := ⟨.keyword .OR, "OR", 57, 59⟩) rfl
    (.group (y := ⟨.symbol .rightParen, ")", 55, 56⟩)
      (x := ⟨.symbol .leftParen, "(", 28, 29⟩) rfl rfl (.and rfl rfl
        (x := ⟨.keyword .AND, "AND", 41, 44⟩) rfl
        (.comparison (Comparison.spells_equation
          (n := ⟨.literal .identifier, "user_id", 29, 36⟩) (e := ⟨.symbol .equal, "=", 37, 38⟩)
          (v := ⟨.literal .int, "1", 39, 40⟩) rfl rfl rfl))
        (.comparison (Comparison.spells_equation
          (n := ⟨.literal .identifier, "status", 45, 51⟩) (e := ⟨.symbol .equal, "=", 52, 53⟩)
          (v := ⟨.literal .int, "2", 54, 55⟩) rfl rfl rfl))))
    (.comparison (Comparison.spells_equation
      (n := ⟨.literal .identifier, "status", 60, 66⟩) (e := ⟨.symbol .equal, "=", 67, 68⟩)
      (v := ⟨.literal .int, "3", 69, 70⟩) rfl rfl rfl))
  refine ⟨⟨.keyword .SELECT, "SELECT", 0, 6⟩, ⟨.keyword .WHERE, "WHERE", 22, 27⟩,
    [⟨.symbol .star, "*", 7, 8⟩, ⟨.keyword .FROM, "FROM", 9, 13⟩,
      ⟨.literal .identifier, "t_order", 14, 21⟩], _, _, s, by decide +kernel, rfl, hb, hs, ?_⟩
  intro hall
  -- The row satisfies the alternative only.
  have hrow := hall ⟨id, fun _ _ => True⟩
    (fun name => if name = "status" then literal ⟨.literal .int, "3", 69, 70⟩ else .raw "")
    (Or.inr rfl) ⟨⟨"user_id", "t_order"⟩, .equal, [literal ⟨.literal .int, "1", 39, 40⟩]⟩
    (by rw [hconditions]; exact List.mem_singleton_self _)
  change Expression.raw "" = literal ⟨.literal .int, "1", 39, 40⟩ at hrow
  exact absurd hrow (by decide)

end SqlFront

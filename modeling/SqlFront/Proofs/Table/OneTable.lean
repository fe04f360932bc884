import SqlFront.Proofs.Change.Text
import SqlFront.Proofs.Table.Reference

/-!
# UPDATE and DELETE of one table

An UPDATE and a DELETE are refused if the tables that they have recorded are not one. A table that
is joined is not recorded where the rule has no place for it, and a table behind an operand that is
not read to its end is not even read, so neither is missed.
-/

set_option autoImplicit false

namespace SqlFront

open SqlFront.Parser SqlFront.Clause SqlFront.Reading

variable {d : Dialect} {rule : ShardingRule} {catalog : Catalog} {sql : String}
  {w v : Workspace Findings} {ts us more tail : List Token} {r q : Reference}
  {rs : List Reference}

/-! ## The clause -/

def NoticesOne (rule : ShardingRule) (rs : List Reference) : Prop :=
  ∀ r q, Noticed rule rs r → Noticed rule rs q → sameName r.title q.title = true

def IsSeveralTables (f : Fault) : Prop := ∃ place, f = .unsupported place .severalTables

structure EndsReferences (d : Dialect) (ts : List Token) : Prop where
  ends : EndsReference ts
  front : frontType ts ∉ .symbol .comma :: joinTypes d

/-- The first table is always noticed. -/
theorem SpellsReferences.noticed (h : SpellsReferences d rs ts) : ∃ r, Noticed rule rs r := by
  have hfirst : ∀ {qs : List Reference} {us : List Token}, SpellsJoined d qs us →
      ∃ r, Noticed rule qs r := by
    rintro qs us ⟨-, -⟩
    exact ⟨_, .first, rfl⟩
  cases h with
  | single h => exact hfirst h
  | comma h =>
    obtain ⟨r, hr, hrecorded⟩ := @hfirst _ _ h
    exact ⟨r, upto_append.2 (Or.inl hr), hrecorded⟩

theorem SpellsReferences.ne_nil (h : SpellsReferences d rs ts) : ts ≠ [] := by
  cases h with
  | single h => exact List.length_pos_iff.1 h.length_pos
  | comma => simp

theorem ReferencesRead.isSingle_iff (h : ReferencesRead rule rs us more w v)
    (hempty : w.draft.tables = .empty) (hfirst : ∃ r, Noticed rule rs r) :
    v.draft.tables.isSingle = true ↔ NoticesOne rule rs := by
  have hnames : ∀ n, v.draft.tables.containsName n = true ↔
      ∃ r, Noticed rule rs r ∧ sameName r.title n = true := by
    intro n
    have hnone : ¬Tables.empty.containsName n = true := by simp [Tables.containsName, Tables.empty]
    rw [h.names, hempty, or_iff_right hnone]
  simp only [Tables.isSingle_iff, hnames]
  constructor
  · rintro ⟨-, hall⟩ r q hr hq
    exact hall _ _ ⟨r, hr, sameName_refl _⟩ ⟨q, hq, sameName_refl _⟩
  · intro hone
    obtain ⟨r, hr⟩ := hfirst
    refine ⟨⟨r.title, r, hr, sameName_refl _⟩, ?_⟩
    rintro a b ⟨r, hr, ha⟩ ⟨q, hq, hb⟩
    have hrq := hone r q hr hq
    rw [sameName_comm] at ha
    exact sameName_trans (sameName_trans ha hrq) hb

theorem tableReferences_eq (rule : ShardingRule) : tableReferences rule true = (do
    let start := (← current).start
    discard <| commaSeparated (joinedTables rule)
    if true && !(← draft).tables.isSingle then throw (.unsupported start .severalTables)) := rfl

theorem settles_tableReferences (hs : SpellsReferences w.cursor.dialect rs ts)
    (htail : EndsReferences w.cursor.dialect tail) (hempty : w.draft.tables = .empty)
    (hw : w.cursor.Passes ts tail) :
    Settles w (tableReferences rule true) (fun _ _ => NoticesOne rule rs)
      fun f => (¬NoticesOne rule rs ∧ IsSeveralTables f) ∨ HaltsIn rs := by
  have hp : w.cursor.Passes (ts ++ []) tail := by simpa using hw
  rw [tableReferences_eq]
  apply settles_current.2
  have hread : Settles w (commaSeparated (joinedTables rule))
      (fun _ v => ReferencesRead rule rs [] tail w v) fun _ => HaltsIn rs :=
    settles_references hs htail.ends htail.front hp
  apply Settles.bind (hread.faults fun _ h => Or.inr h).discard
  intro _ v hv
  have hone := hv.isSingle_iff hempty hs.noticed
  apply settles_draft.2
  by_cases hsingle : v.draft.tables.isSingle = true
  · rw [hsingle, if_neg (by simp)]
    exact Settles.pure (hone.1 hsingle)
  · simp only [Bool.true_and, Bool.not_eq_true', hsingle, if_true]
    exact Or.inl ⟨fun h => hsingle (hone.2 h), _, rfl⟩

/-! ## A table alone -/

theorem achieves_noHints (h : w.cursor.current.type ∉ hintWords) :
    Achieves w skipIndexHints fun _ v => v = w := by
  rw [skipIndexHints_eq]
  apply settles_grammar.2
  split
  · exact achieves_noWhile (achieves_noSkip h)
  · exact Settles.pure rfl

theorem achieves_bareFactor {name : Token} (htail : frontType (us ++ tail) ∉ factorStarts)
    (hw : w.cursor.Passes (name :: us) tail) :
    Achieves w (tableFactor rule true) fun _ v => v.cursor.Passes us tail ∧
      ∃ edits, v.draft =
        { w.draft with tables := w.draft.tables.add ⟨unquoted name.literals, none⟩, edits } := by
  simp only [factorStarts, aliasStarts, List.cons_append, List.nil_append, List.mem_cons,
    not_or] at htail
  obtain ⟨hdot, has, hidentifier, hchars, hhints⟩ := htail
  unfold tableFactor
  apply (achieves_tableToken hw hdot).bind
  rintro t v ⟨rfl, hv⟩
  have halias : Achieves v (alias? : Parser Findings (Option String)) fun a x => a = none ∧ x = v := by
    unfold alias?
    apply settles_noSkip hv.passes (by simpa using has)
    rw [if_neg (by simp)]
    apply settles_isAtAny.2
    rw [hv.passes.isAtAny, if_neg (by simp [hidentifier, hchars])]
    exact Settles.pure ⟨rfl, rfl⟩
  apply halias.bind
  rintro _ x ⟨rfl, rfl⟩
  rw [Bool.true_or, Bool.true_or, if_pos rfl]
  apply settles_modifyDraft.2
  apply (achieves_noHints (w := ⟨x.cursor, _⟩) (hv.passes.type ▸ hhints)).mono
  rintro _ _ rfl
  refine ⟨hv.passes, x.draft.edits ++ [.table t.start t.literals], ?_⟩
  rw [hv.draft]
  rfl

theorem achieves_bareReference {name : Token}
    (htail : EndsReferences w.cursor.dialect (us ++ tail)) (hempty : w.draft.tables = .empty)
    (hw : w.cursor.Passes (name :: us) tail) :
    Achieves w (tableReferences rule true) fun _ v => v.cursor.Passes us tail ∧
      ∃ edits, v.draft =
        { w.draft with tables := ⟨[⟨unquoted name.literals, none⟩]⟩, edits } := by
  obtain ⟨hcomma, hjoin⟩ := not_or.1 (List.mem_cons.not.1 htail.front)
  have hfactor : Achieves w (joinedTables rule) fun _ v => v.cursor.Passes us tail ∧
      ∃ edits, v.draft =
        { w.draft with tables := ⟨[⟨unquoted name.literals, none⟩]⟩, edits } := by
    unfold joinedTables
    apply Achieves.bind (achieves_bareFactor htail.ends.factor hw).withRun
    rintro _ v ⟨⟨hv, edits, hd⟩, hrun⟩
    have hprogress : Progress (fun _ => True) True True w v :=
      tableFactor_progress trivial trivial hrun
    rw [joins_eq]
    have hnone : v.cursor.current.type ∉ joinTypes v.cursor.dialect := by
      rwa [hv.type, hprogress.reaches.dialect]
    apply (achieves_noWhile (achieves_noJoin hnone)).mono
    rintro _ _ rfl
    refine ⟨hv, edits, ?_⟩
    rw [hd, hempty]
    rfl
  have hlist : Achieves w (commaSeparated (joinedTables rule)) fun _ v =>
      v.cursor.Passes us tail ∧ ∃ edits, v.draft =
        { w.draft with tables := ⟨[⟨unquoted name.literals, none⟩]⟩, edits } := by
    change Achieves w (repeatFor (listRound (.symbol .comma) (joinedTables rule))
      (w.cursor.ahead.tokens.length + 2) []) _
    rw [repeatFor_listRound]
    apply hfactor.bind
    rintro _ v ⟨hv, hd⟩
    exact settles_noSkip hv (by simpa using hcomma) (Settles.pure ⟨hv, hd⟩)
  rw [tableReferences_eq]
  apply settles_current.2
  apply hlist.discard.bind
  rintro _ v ⟨hv, edits, hd⟩
  apply settles_draft.2
  rw [hd, if_neg (by simp [Tables.isSingle, Tables.names, Tables.addName])]
  exact Settles.pure ⟨hv, edits, hd⟩

/-! ## The statements -/

inductive SpellsChange (d : Dialect) (rs : List Reference) : List Token → Prop
  | update {u : Token} {ms ts : List Token} : u.type = .keyword .UPDATE →
      (∀ m ∈ ms, m.type ∈ keywordTypes d.grammar.updateModifiers) →
      frontType ts ∉ keywordTypes d.grammar.updateModifiers → SpellsReferences d rs ts →
      SpellsChange d rs (u :: (ms ++ ts))
  | delete {u : Token} {ms ts : List Token} : u.type = .keyword .DELETE →
      (∀ m ∈ ms, m.type ∈ keywordTypes d.grammar.deleteModifiers) →
      frontType ts ∉ keywordTypes d.grammar.deleteModifiers → SpellsReferences d rs ts →
      SpellsChange d rs (u :: (ms ++ ts))

theorem settles_change {words : Grammar → List Keyword} {u : Token} {ms : List Token}
    {rest : Parser Findings Unit}
    (hms : ∀ m ∈ ms, m.type ∈ keywordTypes (words w.cursor.dialect.grammar))
    (hfront : frontType ts ∉ keywordTypes (words w.cursor.dialect.grammar)) (hs : SpellsReferences w.cursor.dialect rs ts)
    (htail : EndsReferences w.cursor.dialect tail) (hempty : w.draft.tables = .empty)
    (hw : w.cursor.Passes (u :: (ms ++ ts)) tail) :
    Settles w (do
      advance
      skipAll (keywordTypes (words (← grammar)))
      tableReferences rule true
      rest) (fun _ _ => NoticesOne rule rs)
      fun f => NoticesOne rule rs ∨ IsSeveralTables f ∨ HaltsIn rs := by
  have hne : ts ≠ [] := hs.ne_nil
  apply (achieves_advance hw).bind
  intro _ v hv
  apply settles_grammar.2
  rw [Cursor.advance_dialect hv.advance]
  apply Achieves.bind (achieves_skipAll hms (by rwa [frontType_append hne]) hv.passes).withRun
  rintro _ x ⟨⟨hx, hxd⟩, hrun⟩
  have hp : Progress (fun _ => True) True True v x := follows_skipAll _ hrun
  have hdialect : x.cursor.dialect = w.cursor.dialect := by
    rw [hp.reaches.dialect, Cursor.advance_dialect hv.advance]
  have hread : Settles x (tableReferences rule true) (fun _ _ => NoticesOne rule rs)
      fun f => (¬NoticesOne rule rs ∧ IsSeveralTables f) ∨ HaltsIn rs :=
    settles_tableReferences (hdialect ▸ hs) (hdialect ▸ htail) (by rw [hxd, hv.draft, hempty]) hx
  apply Settles.bind (hread.faults ?_)
  · intro _ y hone
    exact settles_of_run (fun _ _ _ => hone) fun _ => Or.inl hone
  · rintro f (⟨-, hf⟩ | hf)
    · exact Or.inr (Or.inl hf)
    · exact Or.inr (Or.inr hf)

/-- An accepted text has noticed one table. A text that has noticed more is refused for this, unless
a join condition is. -/
theorem parse_change (hts : (TokenStream.ofText d sql.toList).tokens = ts ++ tail)
    (hs : SpellsChange d rs ts) (htail : EndsReferences d tail)
    (hend : tail = [] → ∃ t, (TokenStream.ofText d sql.toList).ending = .ok t) :
    (∃ s, NoticesOne rule rs ∧ parse d rule catalog sql = .ok s) ∨
      ∃ f, (NoticesOne rule rs ∨ IsSeveralTables f ∨ HaltsIn rs) ∧
        parse d rule catalog sql = .error f := by
  have hread : ∀ c : Cursor, c.dialect = d → c.Passes ts tail →
      Settles ⟨c, ()⟩ (statement rule catalog) (fun _ _ => NoticesOne rule rs)
        fun f => NoticesOne rule rs ∨ IsSeveralTables f ∨ HaltsIn rs := by
    rintro c rfl hc
    cases hs with
    | update hu hms hfront hs =>
      have hchange : Settles ⟨c, { kind := .dml }⟩ (update rule) (fun _ _ => NoticesOne rule rs)
          fun f => NoticesOne rule rs ∨ IsSeveralTables f ∨ HaltsIn rs := by
        exact settles_change hms hfront hs htail rfl hc
      exact (settles_updateWord (hc.current ▸ hu) hchange).mono fun _ _ ⟨_, hone, _⟩ => hone
    | delete hu hms hfront hs =>
      have hchange : Settles ⟨c, { kind := .dml }⟩ (deletion rule) (fun _ _ => NoticesOne rule rs)
          fun f => NoticesOne rule rs ∨ IsSeveralTables f ∨ HaltsIn rs := by
        exact settles_change hms hfront hs htail rfl hc
      exact (settles_deleteWord (hc.current ▸ hu) hchange).mono fun _ _ ⟨_, hone, _⟩ => hone
  obtain ⟨u, us, rfl⟩ : ∃ u us, ts = u :: us := by
    cases hs <;> exact ⟨_, _, rfl⟩
  have hstatement := fun c (hc : (Cursor.ofText d sql).advance = .ok c) =>
    hread c (Cursor.advance_dialect hc)
  rcases parse_statement hts hend hstatement with ⟨s, hone, hp⟩ | hf
  · exact Or.inl ⟨_, hone, hp⟩
  · exact Or.inr hf

def OneTable (rs : List Reference) : Prop :=
  ∀ r ∈ rs, ∀ q ∈ rs, sameName r.title q.title = true

/-- An accepted text has one table exactly if the tables that it has not noticed have the name of
those that it has. A text that has noticed more than one is refused for this, unless a join
condition is. -/
theorem one_table_iff (hts : (TokenStream.ofText d sql.toList).tokens = ts ++ tail)
    (hs : SpellsChange d rs ts) (htail : EndsReferences d tail)
    (hend : tail = [] → ∃ t, (TokenStream.ofText d sql.toList).ending = .ok t) :
    (∀ s, parse d rule catalog sql = .ok s → (OneTable rs ↔ ∀ r ∈ rs, ¬Noticed rule rs r →
      ∀ q, Noticed rule rs q → sameName r.title q.title = true)) ∧
    (¬NoticesOne rule rs → ¬HaltsIn rs →
      ∃ f, IsSeveralTables f ∧ parse d rule catalog sql = .error f) := by
  have hparse : (∃ s, NoticesOne rule rs ∧ parse d rule catalog sql = .ok s) ∨
      ∃ f, (NoticesOne rule rs ∨ IsSeveralTables f ∨ HaltsIn rs) ∧
        parse d rule catalog sql = .error f :=
    parse_change hts hs htail hend
  have hfirst : ∃ r, Noticed rule rs r := by
    cases hs <;> exact SpellsReferences.noticed ‹_›
  constructor
  · intro s hp
    have hone : NoticesOne rule rs := by
      rcases hparse with ⟨_, hone, -⟩ | ⟨f, -, hf⟩
      · exact hone
      · rw [hp] at hf
        cases hf
    constructor
    · exact fun h r hr _ q hq => h r hr q hq.1.mem
    · intro h
      obtain ⟨p, hnoticed⟩ := hfirst
      have hall : ∀ r ∈ rs, sameName r.title p.title = true := by
        intro r hr
        by_cases hn : Noticed rule rs r
        · exact hone r p hn hnoticed
        · exact h r hr hn p hnoticed
      intro r hr q hq
      have hback := hall q hq
      rw [sameName_comm] at hback
      exact sameName_trans (hall r hr) hback
  · intro hnot hhalt
    rcases hparse with ⟨_, hone, -⟩ | ⟨f, hf, hp⟩
    · exact (hnot hone).elim
    · exact ⟨f, (hf.resolve_left hnot).resolve_right hhalt, hp⟩

theorem Apart.of_forall {xs : List TokenType} (h : ∀ t ∈ ts, t.type ∉ xs) : Apart xs ts := by
  rintro us vs rfl - hne
  obtain ⟨t, vs, rfl⟩ := List.exists_cons_of_ne_nil hne
  exact h t (by simp)

theorem one_table_iff_comma : ∃ f, IsSeveralTables f ∧
    parse .mysql ⟨[("t_order", ⟨["user_id"], none⟩)], none⟩ ⟨[]⟩
      "DELETE FROM t_order, foo WHERE user_id = 1" = .error f := by
  have hs : SpellsChange .mysql
      [⟨⟨.literal .identifier, "t_order", 12, 19⟩, false, []⟩,
        ⟨⟨.literal .identifier, "foo", 21, 24⟩, false, []⟩] _ :=
    @SpellsChange.delete _ _ ⟨.keyword .DELETE, "DELETE", 0, 6⟩ [⟨.keyword .FROM, "FROM", 7, 11⟩] _
      rfl (by decide) (by decide)
      (.comma (.intro (.intro rfl .none .nil (by simp)) .nil) (s := ⟨.symbol .comma, ",", 19, 20⟩) rfl
        (.single (.intro (.intro rfl .none .nil (by simp)) .nil)))
  have htail : EndsReferences .mysql [⟨.keyword .WHERE, "WHERE", 25, 30⟩,
      ⟨.literal .identifier, "user_id", 31, 38⟩, ⟨.symbol .equal, "=", 39, 40⟩,
      ⟨.literal .int, "1", 41, 42⟩] :=
    ⟨⟨by decide, by decide⟩, by decide⟩
  refine (one_table_iff (by decide +kernel) hs htail (by simp)).2 ?_ ?_
  · intro h
    have hsame := h _ _ ⟨.first, rfl⟩ ⟨.later (by simp [Reference.IsRead]) .first, rfl⟩
    revert hsame
    decide +kernel
  · rintro ⟨r, hr, j, hj, -⟩
    have hmem := hr.mem
    simp only [List.mem_cons, List.not_mem_nil, or_false] at hmem
    rcases hmem with rfl | rfl <;> cases hj

/-- A table that the rule does not know is joined, and the UPDATE is accepted. -/
theorem joined_table_not_noticed : ∃ s rs ts tail,
    parse .mysql ⟨[("t_order", ⟨["user_id"], none⟩)], none⟩ ⟨[]⟩
      "UPDATE t_order JOIN foo ON a = b SET status = 1" = .ok s ∧
    (TokenStream.ofText .mysql "UPDATE t_order JOIN foo ON a = b SET status = 1".toList).tokens =
      ts ++ tail ∧
    SpellsChange .mysql rs ts ∧ EndsReferences .mysql tail ∧ ¬OneTable rs := by
  have hoperand : ∀ t : Token, t.type = .literal .identifier → IsJoinOperand .mysql [t] := by
    intro t ht
    constructor
    · exact .token (by rw [ht]; decide)
    · refine .of_forall fun x hx => ?_
      rw [List.mem_singleton.1 hx, ht]
      decide
  have hs : SpellsChange .mysql
      [⟨⟨.literal .identifier, "t_order", 7, 14⟩, false, []⟩,
        ⟨⟨.literal .identifier, "foo", 20, 23⟩, true,
          [⟨[⟨.literal .identifier, "a", 27, 28⟩], [⟨.literal .identifier, "b", 31, 32⟩]⟩]⟩] _ :=
    @SpellsChange.update _ _ ⟨.keyword .UPDATE, "UPDATE", 0, 6⟩ [] _ rfl (by simp) (by decide)
      (.single (.intro (.intro rfl .none .nil (by simp))
        (@SpellsJoins.cons _ _ _ _ [⟨.keyword .JOIN, "JOIN", 15, 19⟩] _ _ _ (by simp) (by decide)
          (by decide) (.intro rfl .none .nil (by simp))
          (.on (o := ⟨.keyword .ON, "ON", 24, 26⟩) rfl
            (.single (.intro (o := ⟨.symbol .equal, "=", 29, 30⟩) (hoperand _ rfl) (by decide)
              (hoperand _ rfl)))) .nil)))
  obtain ⟨s, hp, -⟩ := parse_of_view .mysql ⟨[("t_order", ⟨["user_id"], none⟩)], none⟩ ⟨[]⟩
    "UPDATE t_order JOIN foo ON a = b SET status = 1" (fun _ => ()) () (by decide +kernel)
  refine ⟨s, _, _, [⟨.keyword .SET, "SET", 33, 36⟩, ⟨.literal .identifier, "status", 37, 43⟩,
    ⟨.symbol .equal, "=", 44, 45⟩, ⟨.literal .int, "1", 46, 47⟩], hp, by decide +kernel, hs,
    ⟨⟨by decide, by decide⟩, by decide⟩, fun h => ?_⟩
  have hsame := h _ List.mem_cons_self _ (List.mem_cons_of_mem _ List.mem_cons_self)
  revert hsame
  decide +kernel

end SqlFront

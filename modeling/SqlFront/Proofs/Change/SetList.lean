import SqlFront.Proofs.Change.Text
import SqlFront.Proofs.Condition.Reading
import SqlFront.Proofs.Insertion.DuplicateKey
import SqlFront.Proofs.Table.OneTable
import SqlFront.Proofs.Wording.Behind
import SqlFront.Proofs.Wording.Clause

/-!
# Assignments of an UPDATE

The assignments of an UPDATE are read one by one, and the WHERE clause behind them is read where
the reading of the last one ends. If a value is not read to its end, the list ends there, and in
the place of WHERE stands the rest of the value: the UPDATE is accepted without its conditions.
-/

set_option autoImplicit false

namespace SqlFront

open SqlFront.Parser SqlFront.Clause SqlFront.Reading

variable {d : Dialect} {rule : ShardingRule} {catalog : Catalog} {w v : Workspace Findings}
  {ts us more tail : List Token} {a : Assignment} {as : List Assignment}

/-! ## The list -/

def outsideValues : List TokenType :=
  [.symbol .question, .symbol .doubleColon, .keyword .WHERE]

namespace Assignment

def SpellsPlain (a : Assignment) (ts : List Token) : Prop :=
  a.Spells ts ∧ ∀ t ∈ a.value, t.type ∉ outsideValues

end Assignment

def AllWhole (as : List Assignment) : Prop := ∀ a ∈ as, Whole a.value

def listStops : List TokenType := [.symbol .comma, .symbol .doubleColon, .keyword .WHERE]

structure AssignmentsRead (w : Workspace Findings) (as : List Assignment) (us more : List Token)
    (v : Workspace Findings) : Prop where
  collects : Collects w 0 [] v
  place : (AllWhole as ∧ v.cursor.Passes us more) ∨
    (¬AllWhole as ∧ v.cursor.current.type ∉ listStops)

theorem placeholderCount_plain (h : ∀ t ∈ ts, t.type ∉ outsideValues) :
    placeholderCount ts = 0 := by
  unfold placeholderCount
  rw [List.countP_eq_zero]
  intro t ht hq
  apply h t ht
  simp [outsideValues, beq_iff_eq.1 hq]

theorem achieves_noCasts (h : v.cursor.current.type ≠ .symbol .doubleColon) :
    Achieves v (whileM (skipSymbol .doubleColon) advance) fun _ x => x = v :=
  achieves_noWhile (achieves_noSkip (by simpa using h))

theorem achieves_assignmentSign {e : Token} (he : e.type = .symbol .equal)
    (hw : w.cursor.Passes (e :: ts) more) :
    Achieves w assignmentSign fun _ v => Past w ts more v := by
  unfold assignmentSign
  apply settles_skipIf hw (by simp [he])
  exact fun v hv => Settles.pure hv

theorem achieves_assigned (hvalue : IsValue ts) (hplain : ∀ t ∈ ts, t.type ∉ outsideValues)
    (hus : endsOperand (us ++ more) = true)
    (hcast : frontType (us ++ more) ≠ .symbol .doubleColon)
    (hw : w.cursor.Passes (ts ++ us) more) :
    Achieves w (do
      let _ ← expression
      whileM (skipSymbol .doubleColon) advance) fun _ v => Collects w 0 [] v ∧
        ((Whole ts ∧ v.cursor.Passes us more) ∨
          (¬Whole ts ∧ v.cursor.current.type ∉ listStops)) := by
  apply (achieves_read hvalue.level hvalue.complete hvalue.ne_nil hus hw).bind
  rintro _ v ⟨taken, rest, rfl, ⟨hl, hv, hcount⟩, -, hwhole⟩
  have hnone : placeholderCount taken = 0 :=
    placeholderCount_plain fun t ht => hplain t (List.mem_append_left _ ht)
  rw [hnone] at hcount
  cases rest with
  | nil =>
    apply (achieves_noCasts (by rw [hv.type]; exact hcast)).mono
    rintro _ x rfl
    exact ⟨hcount, Or.inl ⟨hwhole.1 rfl, hv⟩⟩
  | cons t rest =>
    have hstop : v.cursor.current.type ∉ listStops := by
      have hout := hplain t (by simp)
      have hcomma := hl.front_ne.1
      rw [hv.current]
      simp only [outsideValues, List.mem_cons, List.not_mem_nil, or_false, not_or] at hout
      simp [listStops, hcomma, hout]
    apply (achieves_noCasts fun h => hstop (by simp [listStops, h])).mono
    rintro _ x rfl
    exact ⟨hcount, Or.inr ⟨fun h => by simpa using hwhole.2 h, hstop⟩⟩

theorem achieves_setAssignment (ha : a.SpellsPlain ts) (hus : endsOperand (us ++ more) = true)
    (hcast : frontType (us ++ more) ≠ .symbol .doubleColon)
    (hw : w.cursor.Passes (ts ++ us) more) :
    Achieves w assignment fun _ v => AssignmentsRead w [a] us more v := by
  obtain ⟨hs, hplain⟩ := ha
  obtain @⟨cs, e, hcolumn, -, he, hvalue⟩ := hs
  rw [List.append_assoc, List.cons_append] at hw
  have hsign : endsOperand (e :: (a.value ++ us) ++ more) = true := endsOperand_equal he
  have hparen : w.cursor.isAt (.symbol .leftParen) = false := by
    obtain ⟨t, ht, hfront⟩ := hcolumn.front (e :: (a.value ++ us) ++ more)
    rw [hw.isAt, List.append_assoc, hfront, beq_eq_false_iff_ne]
    exact Token.not_leftParen_of_isName ht
  unfold assignment
  apply settles_isAt.2
  rw [hparen, if_neg (by simp)]
  apply (achieves_column hcolumn hw hsign).bind
  rintro _ v ⟨-, hv, hleft⟩
  apply (achieves_assignmentSign he hv).bind
  intro _ v₁ h₁
  apply (achieves_assigned hvalue hplain hus hcast h₁.passes).mono
  rintro _ x ⟨hright, hplace⟩
  refine ⟨(hleft.congr h₁.draft.symm).trans hright, ?_⟩
  simpa [AllWhole] using hplace

theorem achieves_assignments (hs : Joined (.symbol .comma) Assignment.SpellsPlain as ts)
    (hus : endsOperand (us ++ more) = true)
    (hstop : frontType (us ++ more) ∉ [TokenType.symbol .comma, .symbol .doubleColon]) {k : ℕ}
    (hk : as.length ≤ k) {bs : List Unit} (hw : w.cursor.Passes (ts ++ us) more) :
    Achieves w (repeatFor (listRound (.symbol .comma) assignment) k bs)
      fun _ v => AssignmentsRead w as us more v := by
  simp only [List.mem_cons, List.not_mem_nil, or_false, not_or] at hstop
  -- By induction on the assignments. If a value is not read to its end, no comma follows and the
  -- reading of the list ends there.
  induction hs generalizing k bs w with
  | @single a ts ha =>
    obtain ⟨k, rfl⟩ := Nat.exists_eq_add_of_le' hk
    rw [List.length_singleton, repeatFor_listRound]
    apply (achieves_setAssignment ha hus hstop.2 hw).bind
    intro _ v hv
    have hcomma : v.cursor.current.type ∉ [TokenType.symbol .comma] := by
      rcases hv.place with ⟨-, hp⟩ | ⟨-, hp⟩
      · rw [hp.type]
        simpa using hstop.1
      · exact fun h => hp (by simp [listStops, List.mem_singleton.1 h])
    exact settles_notAt hcomma (Settles.pure hv)
  | @cons a as s ts rest ha hsep has ih =>
    obtain ⟨k, rfl⟩ := Nat.exists_eq_add_of_le' hk
    have hend : endsOperand (s :: (rest ++ us) ++ more) = true := endsOperand_comma hsep
    rw [List.length_cons, ← Nat.add_assoc, repeatFor_listRound]
    rw [List.append_assoc, List.cons_append] at hw
    apply (achieves_setAssignment ha hend (by simp [hsep]) hw).bind
    intro _ v hv
    rcases hv.place with ⟨hwhole, hp⟩ | ⟨hnot, hp⟩
    · apply settles_skipIf hp (by simp [hsep])
      intro v₁ h₁
      rw [if_pos rfl]
      apply (@ih _ (k + as.length) (by omega) (bs ++ [()]) h₁.passes).mono
      rintro _ x ⟨hx, hplace⟩
      have hboth : AllWhole (a :: as) ↔ AllWhole as := by
        simp only [AllWhole, List.forall_mem_cons] at hwhole ⊢
        simp [hwhole]
      exact ⟨(hv.collects.congr h₁.draft.symm).trans hx, by rwa [hboth]⟩
    · apply settles_notAt fun h => hp (by simp [listStops, List.mem_singleton.1 h])
      refine Settles.pure ⟨hv.collects, Or.inr ⟨fun h => hnot ?_, hp⟩⟩
      simp only [AllWhole, List.forall_mem_cons] at h ⊢
      simp [h]

theorem achieves_updateAssignments {set : Token} (hset : set.type = .keyword .SET)
    (hs : Joined (.symbol .comma) Assignment.SpellsPlain as ts)
    (hend : endsOperand more = true)
    (hstop : frontType more ∉ [TokenType.symbol .comma, .symbol .doubleColon])
    (hw : w.cursor.Passes (set :: ts) more) :
    Achieves w updateAssignments fun _ v => AssignmentsRead w as [] more v := by
  unfold updateAssignments
  apply (achieves_expect hw hset).bind
  intro _ v hv
  have hp : v.cursor.Passes (ts ++ []) more := by simpa using hv.passes
  have hmoves := hp.length_lt_moves
  rw [List.append_nil] at hmoves
  have hread : Achieves v (commaSeparated assignment) fun _ x => AssignmentsRead v as [] more x :=
    achieves_assignments hs (show endsOperand ([] ++ more) = true from hend) hstop
      (Nat.le_trans hs.length_le hmoves) hp
  apply hread.discard.mono
  rintro _ x ⟨hx, hplace⟩
  refine ⟨?_, hplace⟩
  simpa using (Collects.of_eq hv.draft).trans hx

/-! ## The statement -/

def updateHead (rule : ShardingRule) : Parser Findings Unit := do
  advance
  skipAll (keywordTypes (← grammar).updateModifiers)
  tableReferences rule true
  updateAssignments

theorem update_split (rule : ShardingRule) :
    update rule = updateHead rule >>= fun _ => whereClause rule := by
  simp only [update, updateHead, bind_assoc]

theorem updateHead_reaches {u : Unit} (h : updateHead rule w = .ok u v) :
    w.cursor.Reaches v.cursor := by
  obtain ⟨_, _, ha, h⟩ := bind_ok.1 h
  obtain ⟨c, hc, rfl⟩ := advance_ok.1 ha
  obtain ⟨g, _, hg, h⟩ := bind_ok.1 h
  obtain ⟨rfl, rfl⟩ := grammar_ok.1 hg
  obtain ⟨_, w₁, hs, h⟩ := bind_ok.1 h
  obtain ⟨_, w₂, ht, hset⟩ := bind_ok.1 h
  have h₁ : Progress (Names fun _ _ => True) True True ⟨c, w.draft⟩ w₁ := follows_skipAll _ hs
  have h₂ : Progress (Names fun _ _ => True) True True w₁ w₂ :=
    (tableReferences_progress trivial (@tablePlaces_all rule) trivial ht).1
  have h₃ : Progress (Names fun _ _ => True) True True w₂ v := follows_updateAssignments hset
  exact (Cursor.Reaches.single hc).trans ((h₁.trans h₂).trans h₃).reaches

structure UpdateRead (table : String) (as : List Assignment) (more : List Token)
    (v : Workspace Findings) : Prop where
  tables : v.draft.tables = ⟨[⟨table, none⟩]⟩
  conditions : v.draft.conditions = .empty
  placeholders : v.draft.placeholders = 0
  place : (AllWhole as ∧ v.cursor.Passes [] more) ∨
    (¬AllWhole as ∧ v.cursor.current.type ∉ listStops)

inductive SpellsUpdateOf (d : Dialect) (name : Token) (as : List Assignment) : List Token → Prop
  | intro {u set : Token} {ts : List Token} : u.type = .keyword .UPDATE → name.isName = true →
      name.type ∉ keywordTypes d.grammar.updateModifiers → set.type = .keyword .SET →
      Joined (.symbol .comma) Assignment.SpellsPlain as ts →
      SpellsUpdateOf d name as (u :: name :: set :: ts)

theorem achieves_updateHead {name : Token} (hs : SpellsUpdateOf w.cursor.dialect name as ts)
    (hend : endsOperand more = true)
    (hstop : frontType more ∉ [TokenType.symbol .comma, .symbol .doubleColon])
    (hw : w.cursor.Passes ts more) (hd : w.draft = { kind := .dml }) :
    Achieves w (updateHead rule) fun _ v => UpdateRead (unquoted name.literals) as more v := by
  obtain @⟨u, set, ts, hu, -, hmodifier, hset, has⟩ := hs
  unfold updateHead
  apply (achieves_advance hw).bind
  intro _ v hv
  apply settles_grammar.2
  rw [Cursor.advance_dialect hv.advance]
  apply (achieves_skipAll (List.forall_mem_nil _) hmodifier hv.passes).bind
  rintro _ v₁ ⟨hv₁, hd₁⟩
  have hdraft : v₁.draft = { kind := .dml } := by rw [hd₁, hv.draft, hd]
  have htable : EndsReferences v₁.cursor.dialect (set :: ts ++ more) := by
    refine ⟨endsReference_of_type hset (by decide), ?_⟩
    rw [List.cons_append, frontType_cons, hset]
    cases v₁.cursor.dialect <;> decide
  apply (achieves_bareReference htable (by rw [hdraft]) hv₁).bind
  rintro _ v₂ ⟨hv₂, edits, hd₂⟩
  apply (achieves_updateAssignments hset has hend hstop hv₂).mono
  rintro _ v₃ ⟨⟨edits', hd₃⟩, hplace⟩
  rw [hdraft] at hd₂
  rw [hd₂] at hd₃
  refine ⟨?_, ?_, ?_, hplace⟩ <;> rw [hd₃] <;> rfl

/-- An accepted UPDATE has the conditions that its WHERE clause leaves behind. -/
theorem update_accepted {sql : String} {name wh : Token} {s : Statement}
    (hts : (TokenStream.ofText d sql.toList).tokens = ts ++ wh :: tail)
    (hs : SpellsUpdateOf d name as ts) (hwh : wh.type = .keyword .WHERE)
    (hp : parse d rule catalog sql = .ok s) :
    ∃ x v, (Cursor.ofText d sql).Reaches x.cursor ∧
      UpdateRead (unquoted name.literals) as (wh :: tail) x ∧ whereClause rule x = .ok () v ∧
      s.findings.conditions = v.draft.conditions := by
  obtain ⟨u, us, rfl, hu⟩ : ∃ u us, ts = u :: us ∧ u.type = .keyword .UPDATE := by
    obtain ⟨hu⟩ := hs
    exact ⟨_, _, rfl, hu⟩
  have hend : endsOperand (wh :: tail) = true := endsOperand_keyword hwh
  have hread : ∀ c, (Cursor.ofText d sql).advance = .ok c → c.Passes (u :: us) (wh :: tail) →
      Settles ⟨c, ()⟩ (statement rule catalog) (fun s _ => ∃ v : Workspace Findings,
        (∃ x, (Cursor.ofText d sql).Reaches x.cursor ∧
          UpdateRead (unquoted name.literals) as (wh :: tail) x ∧
          whereClause rule x = .ok () v) ∧ s = .update v.draft) fun _ => True := by
    intro c hc hpass
    apply settles_updateWord (hpass.current ▸ hu)
    rw [update_split]
    obtain rfl := Cursor.advance_dialect hc
    have hhead : Achieves ⟨c, { kind := .dml }⟩ (updateHead rule) fun _ x =>
        UpdateRead (unquoted name.literals) as (wh :: tail) x :=
      achieves_updateHead hs hend (by simp [hwh]) hpass rfl
    apply Achieves.bind hhead.withRun
    rintro _ x ⟨hx, hrun⟩
    have hreach : c.Reaches x.cursor := updateHead_reaches hrun
    refine settles_of_run (fun _ v hv => ⟨x, ?_, hx, hv⟩) fun _ => trivial
    exact (Cursor.Reaches.single hc).trans hreach
  rcases parse_statement hts (by simp) hread with ⟨s', ⟨v, ⟨x, hx⟩, rfl⟩, hok⟩ | ⟨f, -, hf⟩
  · rw [hp] at hok
    obtain rfl := Except.ok.inj hok
    exact ⟨x, v, hx.1, hx.2.1, hx.2.2, rfl⟩
  · rw [hp] at hf
    cases hf

/-- In the middle of a value WHERE does not come, and nothing is recorded. -/
theorem UpdateRead.conditions_of_not {table : String} {x : Workspace Findings}
    (hx : UpdateRead table as more x) (hnot : ¬AllWhole as) (h : whereClause rule x = .ok () v) :
    v.draft.conditions = .empty := by
  obtain ⟨-, hstop⟩ := hx.place.resolve_left fun h => hnot h.1
  have hskip : Achieves x (whereClause rule) fun _ y => y = x := by
    rw [whereClause_eq]
    exact settles_notAt (fun h => hstop (by simp [listStops, List.mem_singleton.1 h]))
      (Settles.pure rfl)
  rw [hskip.property h, hx.conditions]

/-- Behind two lists that are read to their ends, texts that go on alike record the same. -/
theorem conditions_agree {sql sql' : String} {table : String} {as' : List Assignment}
    {wh wh' : Token} {tail' ts' : List Token} {x x' v' : Workspace Findings}
    (hts : (TokenStream.ofText d sql.toList).tokens = ts ++ wh :: tail)
    (hts' : (TokenStream.ofText d sql'.toList).tokens = ts' ++ wh' :: tail')
    (hwh : wh.type = .keyword .WHERE) (hword : SameWord wh wh') (htail : tail ≠ [])
    (htext : sql.toList.drop wh.stop = sql'.toList.drop wh'.stop)
    (hreach : (Cursor.ofText d sql).Reaches x.cursor)
    (hreach' : (Cursor.ofText d sql').Reaches x'.cursor)
    (hx : UpdateRead table as (wh :: tail) x) (hx' : UpdateRead table as' (wh' :: tail') x')
    (hall : AllWhole as) (hall' : AllWhole as') (h : whereClause rule x = .ok () v)
    (h' : whereClause rule x' = .ok () v') : v.draft.conditions = v'.draft.conditions := by
  have hp := (hx.place.resolve_right fun h => h.1 hall).2
  have hp' := (hx'.place.resolve_right fun h => h.1 hall').2
  rw [whereClause_eq] at h h'
  obtain ⟨b, y, hskip, h⟩ := bind_ok.1 h
  obtain ⟨b', y', hskip', h'⟩ := bind_ok.1 h'
  have hsame : SameFindings x.draft x'.draft :=
    ⟨hx.tables.trans hx'.tables.symm, hx.conditions.trans hx'.conditions.symm,
      hx.placeholders.trans hx'.placeholders.symm⟩
  obtain ⟨rfl, rfl, halike⟩ := alike_behind hts hts' hword (by simp [hwh]) htext htail hreach hreach'
    hp.faces hp'.faces hsame (by simp [hwh]) hskip hskip'
  exact ((agrees_comparisons halike).both h h').2.drafts.same.conditions

/-- Two accepted UPDATEs of a table that are the same behind WHERE have the same conditions exactly
if the values of both lists are read to their ends, or in neither, or if no conditions are recorded
at all. Behind a list with a value that is not read to its end none are. -/
theorem set_lists_agree_iff {sql sql' : String} {as' : List Assignment} {name wh wh' : Token}
    {tail' ts' : List Token} {s s' : Statement}
    (hts : (TokenStream.ofText d sql.toList).tokens = ts ++ wh :: tail)
    (hts' : (TokenStream.ofText d sql'.toList).tokens = ts' ++ wh' :: tail')
    (hs : SpellsUpdateOf d name as ts) (hs' : SpellsUpdateOf d name as' ts')
    (hwh : wh.type = .keyword .WHERE) (hword : SameWord wh wh') (htail : tail ≠ [])
    (htext : sql.toList.drop wh.stop = sql'.toList.drop wh'.stop)
    (hp : parse d rule catalog sql = .ok s) (hp' : parse d rule catalog sql' = .ok s') :
    (¬AllWhole as → s.findings.conditions = .empty) ∧
    (s.findings.conditions = s'.findings.conditions ↔ (AllWhole as ↔ AllWhole as') ∨
      (s.findings.conditions = .empty ∧ s'.findings.conditions = .empty)) := by
  obtain ⟨x, v, hreach, hx, hrun, hconditions⟩ := update_accepted hts hs hwh hp
  obtain ⟨x', v', hreach', hx', hrun', hconditions'⟩ :=
    update_accepted hts' hs' (hword.type ▸ hwh) hp'
  rw [hconditions, hconditions']
  have hnone : ¬AllWhole as → v.draft.conditions = .empty := fun hnot =>
    hx.conditions_of_not hnot hrun
  have hnone' : ¬AllWhole as' → v'.draft.conditions = .empty := fun hnot =>
    hx'.conditions_of_not hnot hrun'
  refine ⟨hnone, ?_⟩
  by_cases hall : AllWhole as
  · by_cases hall' : AllWhole as'
    · have hsame := conditions_agree hts hts' hwh hword htail htext hreach hreach' hx hx' hall hall'
        hrun hrun'
      simp [hall, hall', hsame]
    · simp [hall, hall', hnone' hall']
  · by_cases hall' : AllWhole as'
    · simp [hall, hall', hnone hall, eq_comm]
    · simp [hall, hall', hnone hall, hnone' hall']

/-- A column is assigned the difference of itself and a number, or a group. -/
theorem set_lists_agree_iff_difference : ∃ s s',
    parse .mysql ⟨[("t", ⟨["a"], none⟩)], none⟩ ⟨[]⟩ "UPDATE t SET b = b-1 WHERE a = 1" = .ok s ∧
    parse .mysql ⟨[("t", ⟨["a"], none⟩)], none⟩ ⟨[]⟩ "UPDATE t SET b = (2) WHERE a = 1" = .ok s' ∧
    s.findings.conditions = s'.findings.conditions := by
  obtain ⟨s, hp, -⟩ := parse_of_view .mysql ⟨[("t", ⟨["a"], none⟩)], none⟩ ⟨[]⟩
    "UPDATE t SET b = b-1 WHERE a = 1" (fun _ => ()) () (by decide +kernel)
  obtain ⟨s', hp', -⟩ := parse_of_view .mysql ⟨[("t", ⟨["a"], none⟩)], none⟩ ⟨[]⟩
    "UPDATE t SET b = (2) WHERE a = 1" (fun _ => ()) () (by decide +kernel)
  have hdifference : IsValue [⟨.literal .identifier, "b", 17, 18⟩, ⟨.literal .int, "-1", 18, 20⟩] :=
    .flat (by simp) (by decide) (by decide)
  have hgroup : Closes 0 [⟨.literal .int, "2", 18, 19⟩, ⟨.symbol .rightParen, ")", 19, 20⟩] :=
    .token (by decide) (by decide) (by decide) (.last rfl)
  have hvalue : IsValue (⟨.symbol .leftParen, "(", 17, 18⟩ ::
      ([⟨.literal .int, "2", 18, 19⟩, ⟨.symbol .rightParen, ")", 19, 20⟩] ++ [])) :=
    ⟨by simp, .group rfl hgroup .nil, .of_last (by decide) (by decide)⟩
  have hs : SpellsUpdateOf .mysql ⟨.literal .identifier, "t", 7, 8⟩
      [⟨none, ⟨.literal .identifier, "b", 13, 14⟩, _⟩] _ :=
    @SpellsUpdateOf.intro _ _ _ ⟨.keyword .UPDATE, "UPDATE", 0, 6⟩ ⟨.keyword .SET, "SET", 9, 12⟩ _
      rfl rfl (by decide) rfl (.single ⟨.intro (.alone rfl) (by decide)
        (e := ⟨.symbol .equal, "=", 15, 16⟩) rfl hdifference, by decide⟩)
  have hs' : SpellsUpdateOf .mysql ⟨.literal .identifier, "t", 7, 8⟩
      [⟨none, ⟨.literal .identifier, "b", 13, 14⟩, _⟩] _ :=
    @SpellsUpdateOf.intro _ _ _ ⟨.keyword .UPDATE, "UPDATE", 0, 6⟩ ⟨.keyword .SET, "SET", 9, 12⟩ _
      rfl rfl (by decide) rfl (.single ⟨.intro (.alone rfl) (by decide)
        (e := ⟨.symbol .equal, "=", 15, 16⟩) rfl hvalue, by decide⟩)
  have htail : [(⟨.literal .identifier, "a", 27, 28⟩ : Token), ⟨.symbol .equal, "=", 29, 30⟩,
      ⟨.literal .int, "1", 31, 32⟩] ≠ [] := by simp
  have hword : SameWord (⟨.keyword .WHERE, "WHERE", 21, 26⟩ : Token)
      ⟨.keyword .WHERE, "WHERE", 21, 26⟩ := ⟨rfl, rfl⟩
  have hts' : (TokenStream.ofText .mysql "UPDATE t SET b = (2) WHERE a = 1".toList).tokens =
      [⟨.keyword .UPDATE, "UPDATE", 0, 6⟩, ⟨.literal .identifier, "t", 7, 8⟩,
        ⟨.keyword .SET, "SET", 9, 12⟩, ⟨.literal .identifier, "b", 13, 14⟩,
        ⟨.symbol .equal, "=", 15, 16⟩, ⟨.symbol .leftParen, "(", 17, 18⟩,
        ⟨.literal .int, "2", 18, 19⟩, ⟨.symbol .rightParen, ")", 19, 20⟩] ++
      ⟨.keyword .WHERE, "WHERE", 21, 26⟩ :: [⟨.literal .identifier, "a", 27, 28⟩,
        ⟨.symbol .equal, "=", 29, 30⟩, ⟨.literal .int, "1", 31, 32⟩] := by
    decide +kernel
  have hiff := set_lists_agree_iff (by decide +kernel) hts' hs hs' rfl hword htail
    (by decide +kernel) hp hp'
  refine ⟨s, s', hp, hp', hiff.2.2 (Or.inl ?_)⟩
  have hwhole : Whole [(⟨.literal .identifier, "b", 17, 18⟩ : Token), ⟨.literal .int, "-1", 18, 20⟩] :=
    .word (by decide) (by decide) (.negative (by decide +kernel))
  have hwhole' := Whole.group (l := ⟨.symbol .leftParen, "(", 17, 18⟩) rfl hgroup .nil
  simpa [AllWhole, hwhole] using hwhole'

/-- Behind `b+1-1` the WHERE clause is not seen. -/
theorem where_dropped_behind_sum : ∃ s s' as as' ts ts' wh wh' tail tail',
    parse .mysql ⟨[("t", ⟨["a"], none⟩)], none⟩ ⟨[]⟩ "UPDATE t SET b = b+1-1 WHERE a = 1" = .ok s ∧
    parse .mysql ⟨[("t", ⟨["a"], none⟩)], none⟩ ⟨[]⟩ "UPDATE t SET b = 1 WHERE a = 1" = .ok s' ∧
    (TokenStream.ofText .mysql "UPDATE t SET b = b+1-1 WHERE a = 1".toList).tokens =
      ts ++ wh :: tail ∧
    (TokenStream.ofText .mysql "UPDATE t SET b = 1 WHERE a = 1".toList).tokens =
      ts' ++ wh' :: tail' ∧
    SpellsUpdateOf .mysql ⟨.literal .identifier, "t", 7, 8⟩ as ts ∧
    SpellsUpdateOf .mysql ⟨.literal .identifier, "t", 7, 8⟩ as' ts' ∧
    wh.type = .keyword .WHERE ∧ SameWord wh wh' ∧ tail ≠ [] ∧
    "UPDATE t SET b = b+1-1 WHERE a = 1".toList.drop wh.stop =
      "UPDATE t SET b = 1 WHERE a = 1".toList.drop wh'.stop ∧
    s.findings.conditions ≠ s'.findings.conditions := by
  obtain ⟨s, hp, hconditions⟩ := parse_of_view .mysql ⟨[("t", ⟨["a"], none⟩)], none⟩ ⟨[]⟩
    "UPDATE t SET b = b+1-1 WHERE a = 1" (fun s => s.findings.conditions) .empty (by decide +kernel)
  obtain ⟨s', hp', hconditions'⟩ := parse_of_view .mysql ⟨[("t", ⟨["a"], none⟩)], none⟩ ⟨[]⟩
    "UPDATE t SET b = 1 WHERE a = 1" (fun s => s.findings.conditions)
    ⟨[⟨[⟨⟨"a", "t"⟩, .equal, [.number (.integer 1)]⟩]⟩]⟩ (by decide +kernel)
  have hsum : IsValue [⟨.literal .identifier, "b", 17, 18⟩, ⟨.symbol .plus, "+", 18, 19⟩,
      ⟨.literal .int, "1", 19, 20⟩, ⟨.literal .int, "-1", 20, 22⟩] :=
    .flat (by simp) (by decide) (by decide)
  have hs : SpellsUpdateOf .mysql ⟨.literal .identifier, "t", 7, 8⟩
      [⟨none, ⟨.literal .identifier, "b", 13, 14⟩, _⟩] _ :=
    @SpellsUpdateOf.intro _ _ _ ⟨.keyword .UPDATE, "UPDATE", 0, 6⟩ ⟨.keyword .SET, "SET", 9, 12⟩ _
      rfl rfl (by decide) rfl (.single ⟨.intro (.alone rfl) (by decide)
        (e := ⟨.symbol .equal, "=", 15, 16⟩) rfl hsum, by decide⟩)
  have hs' : SpellsUpdateOf .mysql ⟨.literal .identifier, "t", 7, 8⟩
      [⟨none, ⟨.literal .identifier, "b", 13, 14⟩, _⟩] _ :=
    @SpellsUpdateOf.intro _ _ _ ⟨.keyword .UPDATE, "UPDATE", 0, 6⟩ ⟨.keyword .SET, "SET", 9, 12⟩ _
      rfl rfl (by decide) rfl (.single ⟨.intro (.alone rfl) (by decide)
        (e := ⟨.symbol .equal, "=", 15, 16⟩) rfl
        (.token (t := ⟨.literal .int, "1", 17, 18⟩) (by decide)), by decide⟩)
  refine ⟨s, s', _, _, _, _, ⟨.keyword .WHERE, "WHERE", 23, 28⟩, ⟨.keyword .WHERE, "WHERE", 19, 24⟩,
    [⟨.literal .identifier, "a", 29, 30⟩, ⟨.symbol .equal, "=", 31, 32⟩,
      ⟨.literal .int, "1", 33, 34⟩],
    [⟨.literal .identifier, "a", 25, 26⟩, ⟨.symbol .equal, "=", 27, 28⟩,
      ⟨.literal .int, "1", 29, 30⟩], hp, hp', by decide +kernel, by decide +kernel, hs, hs', rfl,
    ⟨rfl, rfl⟩, by simp, by decide +kernel, ?_⟩
  rw [hconditions, hconditions']
  decide +kernel

end SqlFront

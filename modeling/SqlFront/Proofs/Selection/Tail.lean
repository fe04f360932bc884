import SqlFront.Proofs.Change.Text
import SqlFront.Proofs.Merge
import SqlFront.Proofs.Progress.Select
import SqlFront.Proofs.Selection.List
import SqlFront.Proofs.Wording.Behind
import SqlFront.Proofs.Wording.Clause

/-!
# What a select list leaves of the query

FROM and WHERE are read where the reading of the select list ends. If an item is not read to its
end, the rest of it stands in the place of FROM: the SELECT is accepted without its tables and
conditions.
-/

set_option autoImplicit false

namespace SqlFront

open SqlFront.Parser SqlFront.Clause SqlFront.Reading

variable {d : Dialect} {rule : ShardingRule} {catalog : Catalog} {w : Workspace Query}
  {ts tail : List Token} {fr : Token} {items : List WrittenItem}

/-! ## Up to the end of the list -/

def openingWords (d : Dialect) : List TokenType :=
  keywordTypes (.ALL :: .DISTINCT :: (d.grammar.distinctSynonyms ++ d.grammar.selectOptions ++
    if d.grammar.rowLimit == .top then [.TOP] else []))

inductive SpellsSelection (d : Dialect) (items : List WrittenItem) : List Token → Prop
  | intro {s : Token} {ts : List Token} : s.type = .keyword .SELECT →
      Joined (.symbol .comma) (WrittenItem.Spells d) items ts →
      frontType ts ∉ openingWords d → SpellsSelection d items (s :: ts)

def selectOpening (rule : ShardingRule) : Parser Query Unit := do
  advance
  distinctClause
  skipAll (keywordTypes (← grammar).selectOptions)
  topClause
  selectList rule

theorem queryHead_split (rule : ShardingRule) :
    queryHead rule = selectOpening rule >>= fun _ => refuseIf [.keyword .INTO] := by
  simp only [queryHead, selectOpening, bind_assoc]

structure HeadRead (items : List WrittenItem) (more : List Token) (v : Workspace Query) : Prop where
  tables : v.draft.findings.tables = .empty
  conditions : v.draft.findings.conditions = .empty
  placeholders : v.draft.findings.placeholders = 0
  place : ComesTo (WholeList items) [] more v.cursor

theorem Parser.Joined.tokens_ne_nil {α : Type} {separator : TokenType}
    {Spells : α → List Token → Prop} {xs : List α} (h : Joined separator Spells xs ts)
    (hne : ∀ x us, Spells x us → us ≠ []) : ts ≠ [] := by
  cases h with
  | single hx => exact hne _ _ hx
  | cons hx => simp

theorem WrittenItem.Spells.ne_nil {item : WrittenItem} (h : item.Spells d ts) : ts ≠ [] := by
  cases h with
  | parts hne => exact fun hnil => hne (tokensOf_eq_nil hnil)
  | group => simp

theorem achieves_noDistinct {more : List Token} (hw : w.cursor.Passes ts more)
    (h : frontType (ts ++ more) ∉
      keywordTypes (.ALL :: .DISTINCT :: w.cursor.dialect.grammar.distinctSynonyms)) :
    Achieves w (distinctClause : Parser Query Unit) fun _ v => v = w := by
  simp only [keywordTypes, List.map_cons, List.mem_cons, not_or] at h
  have hat : w.cursor.isAtAny
      (keywordTypes (.DISTINCT :: w.cursor.dialect.grammar.distinctSynonyms)) = false := by
    rw [hw.isAtAny, List.contains_eq_mem]
    apply decide_eq_false
    simp only [keywordTypes, List.map_cons, List.mem_cons, not_or]
    exact h.2
  unfold distinctClause
  apply settles_noSkip hw (by simpa using h.1)
  apply settles_grammar.2
  exact (settles_of_ok (a := ()) (refuseIf_ok.2 ⟨hat, rfl⟩)).2 rfl

theorem achieves_noTop {more : List Token} (hw : w.cursor.Passes ts more)
    (h : w.cursor.dialect.grammar.rowLimit == .top → frontType (ts ++ more) ≠ .keyword .TOP) :
    Achieves w topClause fun _ v => v = w := by
  unfold topClause
  apply settles_grammar.2
  split
  · next hlimit =>
    apply settles_noSkip hw (by simpa using h hlimit)
    exact Settles.pure rfl
  · exact Settles.pure rfl

theorem achieves_selectOpening (hs : SpellsSelection w.cursor.dialect items ts)
    (hfr : fr.type = .keyword .FROM) (hw : w.cursor.Passes ts (fr :: tail)) (hd : w.draft = {}) :
    Achieves w (selectOpening rule) fun _ v => HeadRead items (fr :: tail) v := by
  obtain @⟨s, ts, hselect, hlist, hopening⟩ := hs
  unfold selectOpening
  apply (achieves_advance hw).bind
  intro _ v hv
  have hdialect := Cursor.advance_dialect hv.advance
  rw [← hdialect] at hlist hopening
  have hfront : frontType (ts ++ fr :: tail) = frontType ts :=
    frontType_append (hlist.tokens_ne_nil fun _ _ h => h.ne_nil)
  simp only [openingWords, keywordTypes, List.map_cons, List.map_append, List.mem_cons,
    List.mem_append, not_or] at hopening
  obtain ⟨hall, hdistinct, ⟨hsynonym, hoption⟩, htop⟩ := hopening
  have hdistinct' : frontType (ts ++ fr :: tail) ∉
      keywordTypes (.ALL :: .DISTINCT :: v.cursor.dialect.grammar.distinctSynonyms) := by
    simp only [hfront, keywordTypes, List.map_cons, List.mem_cons, not_or]
    exact ⟨hall, hdistinct, hsynonym⟩
  have hskip : frontType (ts ++ fr :: tail) ∉ keywordTypes v.cursor.dialect.grammar.selectOptions :=
    hfront ▸ hoption
  have htop' : v.cursor.dialect.grammar.rowLimit == .top →
      frontType (ts ++ fr :: tail) ≠ .keyword .TOP := by
    intro hlimit
    rw [if_pos hlimit] at htop
    rw [hfront]
    simpa using htop
  apply (achieves_noDistinct hv.passes hdistinct').bind
  rintro _ _ rfl
  apply settles_grammar.2
  apply (achieves_noWhile (achieves_noSkip (hv.passes.type ▸ hskip))).bind
  rintro _ _ rfl
  apply (achieves_noTop hv.passes htop').bind
  rintro _ v rfl
  apply (achieves_selectList hfr hlist hv.passes).mono
  rintro _ x ⟨⟨edits, hx⟩, hplace⟩
  have hdraft : v.found.draft = { kind := .dql } := by
    change findings v.draft = _
    rw [hv.draft, hd]
    rfl
  have hfindings : x.draft.findings = Findings.behind { kind := .dql } 0 [] edits := hdraft ▸ hx
  refine ⟨?_, ?_, ?_, hplace⟩ <;> rw [hfindings] <;> rfl

/-! ## Behind the list -/

def tablesOfFrom (rule : ShardingRule) : Parser Findings Unit := do
  if ← skipKeyword .FROM then tableReferences rule false

def tablesAndConditions (rule : ShardingRule) : Parser Findings Unit := do
  tablesOfFrom rule
  whereClause rule

def NoSubQuery (tail : List Token) : Prop :=
  frontType tail = .symbol .leftParen → frontType tail.tail ≠ .keyword .SELECT

theorem HeadRead.noSubQuery {x : Workspace Query} {c : Cursor} (hx : HeadRead items (fr :: tail) x)
    (hsingle : NoSubQuery tail) (hat : x.cursor.isAtAny [.keyword .FROM] = true)
    (hc : x.cursor.advance = .ok c) : ¬AtSubQuery c := by
  rcases hx.place with ⟨-, hp⟩ | ⟨-, hstop⟩
  · have hfaces : c.Faces tail := hp.faces.advance hc
    rintro ⟨hparen, t, ht, htype⟩
    rw [Cursor.isAt_iff, hfaces.type] at hparen
    cases tail with
    | nil => simp at hparen
    | cons l tail => exact hsingle hparen ((hfaces.peek ht).symm.trans htype)
  · rw [Cursor.isAtAny_iff, List.mem_singleton] at hat
    exact (hstop (by rw [hat]; decide)).elim

def RecordsBehind (rule : ShardingRule) (c : Cursor) (items : List WrittenItem) (more : List Token)
    (f : Findings) : Prop :=
  ∃ (x : Workspace Query) (y : Workspace Findings), c.Reaches x.cursor ∧ HeadRead items more x ∧
    tablesAndConditions rule x.found = .ok () y ∧ f.tables = y.draft.tables ∧
    f.conditions = y.draft.conditions

theorem queryLevel_opened {n : ℕ} {v : Workspace Query} {inner : List Query}
    (hs : SpellsSelection w.cursor.dialect items ts) (hfr : fr.type = .keyword .FROM)
    (hsingle : NoSubQuery tail) (hw : w.cursor.Passes ts (fr :: tail)) (hd : w.draft = {})
    (hq : w.cursor.current.type ≠ .symbol .question)
    (h : queryLevel rule (n + 1) w = .ok inner v) :
    inner = [] ∧ RecordsBehind rule w.cursor items (fr :: tail) v.draft.findings := by
  obtain ⟨x, y, z, hhead, hfrom, hwhere, htail⟩ := queryLevel_succ_ok h
  have hreach : QueryProgress (fun _ => True) True True w x := queryHead_progress hq hhead
  have hread : HeadRead items (fr :: tail) x := by
    rw [queryHead_split] at hhead
    obtain ⟨_, x', hopening, hrefuse⟩ := bind_ok.1 hhead
    obtain ⟨-, rfl⟩ := refuseIf_ok.1 hrefuse
    exact (achieves_selectOpening hs hfr hw hd).property hopening
  have htables : inner = [] ∧ tablesOfFrom rule x.found = .ok () y.found := by
    cases fromClause_run hfrom with
    | absent hat => exact ⟨rfl, bind_ok.2 ⟨false, x.found, skipIf_ok.2 ⟨hat, rfl⟩, rfl⟩⟩
    | @tables c _ hat hc _ ht =>
      obtain ⟨c', f, hf, rfl⟩ := onFindings_ok.1 ht
      exact ⟨rfl, bind_ok.2 ⟨true, ⟨c, x.draft.findings⟩, skipIf_ok.2 ⟨hat, c, hc, rfl⟩, hf⟩⟩
    | query hat hc hopen => exact (hread.noSubQuery hsingle hat hc hopen).elim
  obtain ⟨rfl, htables⟩ := htables
  obtain ⟨c, f, hf, rfl⟩ := onFindings_ok.1 hwhere
  have hkeeps : QueryProgress (fun _ => True) False False _ v := queryTail_progress htail
  exact ⟨rfl, x, ⟨c, f⟩, hreach.found.reaches, hread, bind_ok.2 ⟨(), y.found, htables, hf⟩,
    hkeeps.found.tables_eq, hkeeps.found.conditions_eq⟩

theorem settles_selectWord {c : Cursor} {Q : List Query → Workspace Query → Prop} {F : Fault → Prop}
    (ht : c.current.type = .keyword .SELECT)
    (h : Settles ⟨c, {}⟩ (queryLevel rule c.moves) Q F) :
    Settles ⟨c, ()⟩ (statement rule catalog) (fun s _ => ∃ inner v, Q inner v ∧
      s = .select ((SelectStatement.mk v.draft inner).merged.derive catalog)) F := by
  unfold statement
  apply settles_current.2
  rw [ht]
  unfold selectStatement
  apply settles_cursor.2
  apply settles_inside.2
  exact h.mono fun inner v hv => ⟨inner, v, hv, rfl⟩

/-- An accepted SELECT has the tables and conditions that are read behind its select list. -/
theorem select_accepted {sql : String} {s : Statement}
    (hts : (TokenStream.ofText d sql.toList).tokens = ts ++ fr :: tail)
    (hs : SpellsSelection d items ts) (hfr : fr.type = .keyword .FROM) (hsingle : NoSubQuery tail)
    (hp : parse d rule catalog sql = .ok s) :
    RecordsBehind rule (Cursor.ofText d sql) items (fr :: tail) s.findings := by
  obtain ⟨t, us, rfl, ht⟩ : ∃ t us, ts = t :: us ∧ t.type = .keyword .SELECT := by
    obtain ⟨ht⟩ := hs
    exact ⟨_, _, rfl, ht⟩
  have hread : ∀ c, (Cursor.ofText d sql).advance = .ok c → c.Passes (t :: us) (fr :: tail) →
      Settles ⟨c, ()⟩ (statement rule catalog) (fun s _ => ∃ (inner : List Query)
        (v : Workspace Query), (inner = [] ∧
          RecordsBehind rule (Cursor.ofText d sql) items (fr :: tail) v.draft.findings) ∧
            s = .select ((SelectStatement.mk v.draft inner).merged.derive catalog)) fun _ => True := by
    intro c hc hpass
    have hword : c.current.type = .keyword .SELECT := hpass.current ▸ ht
    apply settles_selectWord hword
    obtain rfl := Cursor.advance_dialect hc
    refine settles_of_run (fun inner v hrun => ?_) fun _ => trivial
    obtain ⟨hinner, x, y, hreach, h⟩ := queryLevel_opened (w := ⟨c, {}⟩) hs hfr hsingle hpass rfl
      (by simp [hword]) hrun
    exact ⟨hinner, x, y, (Cursor.Reaches.single hc).trans hreach, h⟩
  rcases parse_statement hts (by simp) hread with
    ⟨s', ⟨inner, v, ⟨rfl, x, y, hreach, hx, hy, htables, hconditions⟩, rfl⟩, hok⟩ | ⟨f, -, hf⟩
  · rw [hp] at hok
    obtain rfl := Except.ok.inj hok
    have hderive := v.draft.derive_extends catalog
    exact ⟨x, y, hreach, hx, hy, hderive.tables.trans htables, hderive.conditions.trans hconditions⟩
  · rw [hp] at hf
    cases hf

/-- In the middle of an item neither FROM nor WHERE comes, and nothing is recorded. -/
theorem RecordsBehind.empty {c : Cursor} {more : List Token} {f : Findings}
    (h : RecordsBehind rule c items more f) (hnot : ¬WholeList items) :
    f.tables = .empty ∧ f.conditions = .empty := by
  obtain ⟨x, y, -, hx, hrun, htables, hconditions⟩ := h
  obtain ⟨-, hstop⟩ := hx.place.resolve_left fun h => hnot h.1
  have hskip : Achieves x.found (tablesAndConditions rule) fun _ y => y = x.found := by
    have hnone : ∀ k, TokenType.keyword k ∈ selectStops → x.found.cursor.current.type ∉ keywordTypes [k] :=
      fun k hk h => hstop (List.mem_singleton.1 h ▸ hk)
    unfold tablesAndConditions tablesOfFrom
    rw [whereClause_eq]
    apply Achieves.bind (P := fun _ y => y = x.found)
    · exact settles_notAt (hnone .FROM (by decide)) (Settles.pure rfl)
    rintro _ _ rfl
    exact settles_notAt (hnone .WHERE (by decide)) (Settles.pure rfl)
  rw [htables, hconditions, hskip.property hrun]
  exact ⟨hx.tables, hx.conditions⟩

theorem frontType_moved {n m : ℕ} {xs ys : List Token} (h : List.Forall₂ (Moved n m) xs ys) :
    frontType xs = frontType ys ∧ frontType xs.tail = frontType ys.tail := by
  cases h with
  | nil => exact ⟨rfl, rfl⟩
  | cons hx h =>
    refine ⟨hx.word.type, ?_⟩
    cases h with
    | nil => rfl
    | cons hx => exact hx.word.type

/-- Behind two lists that are read to their ends, texts that go on alike record the same. -/
theorem RecordsBehind.agree {sql sql' : String} {items' : List WrittenItem} {fr' : Token}
    {tail' ts' : List Token} {f f' : Findings}
    (hts : (TokenStream.ofText d sql.toList).tokens = ts ++ fr :: tail)
    (hts' : (TokenStream.ofText d sql'.toList).tokens = ts' ++ fr' :: tail')
    (hfr : fr.type = .keyword .FROM) (hword : SameWord fr fr') (htail : tail ≠ [])
    (htext : sql.toList.drop fr.stop = sql'.toList.drop fr'.stop)
    (h : RecordsBehind rule (Cursor.ofText d sql) items (fr :: tail) f)
    (h' : RecordsBehind rule (Cursor.ofText d sql') items' (fr' :: tail') f')
    (hall : WholeList items) (hall' : WholeList items') :
    f.tables = f'.tables ∧ f.conditions = f'.conditions := by
  obtain ⟨x, y, hreach, hx, hrun, htables, hconditions⟩ := h
  obtain ⟨x', y', hreach', hx', hrun', htables', hconditions'⟩ := h'
  have hp := (hx.place.resolve_right fun h => h.1 hall).2
  have hp' := (hx'.place.resolve_right fun h => h.1 hall').2
  obtain ⟨_, z, hfrom, hwhere⟩ := bind_ok.1 hrun
  obtain ⟨_, z', hfrom', hwhere'⟩ := bind_ok.1 hrun'
  obtain ⟨b, u, hskip, hreferences⟩ := bind_ok.1 hfrom
  obtain ⟨b', u', hskip', hreferences'⟩ := bind_ok.1 hfrom'
  have hsame : SameFindings x.found.draft x'.found.draft :=
    ⟨hx.tables.trans hx'.tables.symm, hx.conditions.trans hx'.conditions.symm,
      hx.placeholders.trans hx'.placeholders.symm⟩
  obtain ⟨rfl, rfl, halike⟩ := alike_behind hts hts' hword (by simp [hfr]) htext htail hreach hreach'
    hp.faces hp'.faces hsame (by simp [hfr]) hskip hskip'
  have hbehind := ((agrees_tableReferences false halike).both hreferences hreferences').2
  have hend := ((agrees_whereClause hbehind).both hwhere hwhere').2.drafts.same
  rw [htables, htables', hconditions, hconditions']
  exact ⟨hend.tables, hend.conditions⟩

/-- Two accepted SELECTs that are the same behind FROM, where no sub-query stands, record the same
tables and conditions exactly if the items of both lists are read to their ends, or in neither, or
if nothing is recorded at all. Behind a list with an item that is not read to its end nothing is. -/
theorem select_lists_agree_iff {sql sql' : String} {items' : List WrittenItem} {fr' : Token}
    {tail' ts' : List Token} {s s' : Statement}
    (hts : (TokenStream.ofText d sql.toList).tokens = ts ++ fr :: tail)
    (hts' : (TokenStream.ofText d sql'.toList).tokens = ts' ++ fr' :: tail')
    (hs : SpellsSelection d items ts) (hs' : SpellsSelection d items' ts')
    (hfr : fr.type = .keyword .FROM) (hword : SameWord fr fr') (htail : tail ≠ [])
    (hsingle : NoSubQuery tail) (htext : sql.toList.drop fr.stop = sql'.toList.drop fr'.stop)
    (hp : parse d rule catalog sql = .ok s) (hp' : parse d rule catalog sql' = .ok s') :
    (¬WholeList items → s.findings.tables = .empty ∧ s.findings.conditions = .empty) ∧
    (s.findings.tables = s'.findings.tables ∧ s.findings.conditions = s'.findings.conditions ↔
      (WholeList items ↔ WholeList items') ∨
        (s.findings.tables = .empty ∧ s.findings.conditions = .empty ∧
          s'.findings.tables = .empty ∧ s'.findings.conditions = .empty)) := by
  have hsingle' : NoSubQuery tail' := by
    have hmoved := TokenStream.moved_behind hts hts' hword (by simp [hfr]) htext
    obtain ⟨hfront, hsecond⟩ := frontType_moved hmoved.1
    unfold NoSubQuery
    rwa [← hfront, ← hsecond]
  have hread := select_accepted hts hs hfr hsingle hp
  have hread' := select_accepted hts' hs' (hword.type ▸ hfr) hsingle' hp'
  refine ⟨hread.empty, ?_⟩
  by_cases hall : WholeList items
  · by_cases hall' : WholeList items'
    · simp [hall, hall', hread.agree hts hts' hfr hword htail htext hread' hall hall']
    · simp [hall, hall', hread'.empty hall']
  · by_cases hall' : WholeList items'
    · simp [hall, hall', hread.empty hall, eq_comm]
    · simp [hall, hall', hread.empty hall, hread'.empty hall']

/-- The list has a call and a sum with an alias, or it is a star. -/
theorem select_lists_agree_iff_sum : ∃ s s',
    parse .mysql ⟨[("t", ⟨["a"], none⟩)], none⟩ ⟨[]⟩ "SELECT COUNT(a), a+1 b FROM t WHERE a = 1" =
      .ok s ∧
    parse .mysql ⟨[("t", ⟨["a"], none⟩)], none⟩ ⟨[]⟩ "SELECT * FROM t WHERE a = 1" = .ok s' ∧
    s.findings.tables = s'.findings.tables ∧ s.findings.conditions = s'.findings.conditions := by
  obtain ⟨s, hp, -⟩ := parse_of_view .mysql ⟨[("t", ⟨["a"], none⟩)], none⟩ ⟨[]⟩
    "SELECT COUNT(a), a+1 b FROM t WHERE a = 1" (fun _ => ()) () (by decide +kernel)
  obtain ⟨s', hp', -⟩ := parse_of_view .mysql ⟨[("t", ⟨["a"], none⟩)], none⟩ ⟨[]⟩
    "SELECT * FROM t WHERE a = 1" (fun _ => ()) () (by decide +kernel)
  have hword : ∀ t : Token, t.type ∉ Part.bounds → (Part.word t).Fits := fun _ => .word
  have hcall : (Part.group ⟨.symbol .leftParen, "(", 12, 13⟩
      [⟨.literal .identifier, "a", 13, 14⟩, ⟨.symbol .rightParen, ")", 14, 15⟩]).Fits :=
    .group rfl (.token (by decide) (by decide) (by decide) (.last rfl)) (by decide)
  have hcount : Formed [.word ⟨.keyword .COUNT, "COUNT", 7, 12⟩, .group ⟨.symbol .leftParen, "(", 12, 13⟩
      [⟨.literal .identifier, "a", 13, 14⟩, ⟨.symbol .rightParen, ")", 14, 15⟩]] := by
    refine .of_fits ?_ (by simp)
    simp only [List.forall_mem_cons]
    exact ⟨hword _ (by decide), hcall, by simp⟩
  have hsum : Formed [.word ⟨.literal .identifier, "a", 17, 18⟩, .word ⟨.symbol .plus, "+", 18, 19⟩,
      .word ⟨.literal .int, "1", 19, 20⟩, .word ⟨.literal .identifier, "b", 21, 22⟩] := by
    refine .of_fits ?_ (by simp)
    simp only [List.forall_mem_cons]
    exact ⟨hword _ (by decide), hword _ (by decide), hword _ (by decide), hword _ (by decide), by simp⟩
  have hstar : Formed [.word ⟨.symbol .star, "*", 7, 8⟩] :=
    .of_fits (by simpa using hword _ (by decide)) (by simp)
  have hs := SpellsSelection.intro (d := .mysql) (s := ⟨.keyword .SELECT, "SELECT", 0, 6⟩) rfl
    (.cons (s := ⟨.symbol .comma, ",", 15, 16⟩)
      (.parts (by simp) hcount (Or.inl (.of_last (by simp))) rfl (by decide)) rfl
      (.single (.parts (by simp) hsum (Or.inl (.of_last (by simp [operators]))) rfl (by decide))))
    (by decide)
  have hs' := SpellsSelection.intro (d := .mysql) (s := ⟨.keyword .SELECT, "SELECT", 0, 6⟩) rfl
    (.single (.parts (by simp) hstar (Or.inr (.bare rfl)) rfl (by decide))) (by decide)
  have htail : [(⟨.literal .identifier, "t", 28, 29⟩ : Token), ⟨.keyword .WHERE, "WHERE", 30, 35⟩,
      ⟨.literal .identifier, "a", 36, 37⟩, ⟨.symbol .equal, "=", 38, 39⟩,
      ⟨.literal .int, "1", 40, 41⟩] ≠ [] := by simp
  have hwords : SameWord (⟨.keyword .FROM, "FROM", 23, 27⟩ : Token) ⟨.keyword .FROM, "FROM", 9, 13⟩ :=
    ⟨rfl, rfl⟩
  have hts' : (TokenStream.ofText .mysql "SELECT * FROM t WHERE a = 1".toList).tokens =
      [⟨.keyword .SELECT, "SELECT", 0, 6⟩, ⟨.symbol .star, "*", 7, 8⟩] ++
      ⟨.keyword .FROM, "FROM", 9, 13⟩ :: [⟨.literal .identifier, "t", 14, 15⟩,
        ⟨.keyword .WHERE, "WHERE", 16, 21⟩, ⟨.literal .identifier, "a", 22, 23⟩,
        ⟨.symbol .equal, "=", 24, 25⟩, ⟨.literal .int, "1", 26, 27⟩] := by
    decide +kernel
  have hiff := select_lists_agree_iff (by decide +kernel) hts' hs hs' rfl hwords htail
    (by unfold NoSubQuery; decide) (by decide +kernel) hp hp'
  have hwhole : WholeItem [.word ⟨.literal .identifier, "a", 17, 18⟩,
      .word ⟨.symbol .plus, "+", 18, 19⟩, .word ⟨.literal .int, "1", 19, 20⟩,
      .word ⟨.literal .identifier, "b", 21, 22⟩] := by
    refine .expression (.word (by decide) rfl (by decide))
      ⟨_, .single (.operator (by decide) (.word rfl)), _, .alone (by decide), rfl⟩
  refine ⟨s, s', hp, hp', hiff.2.2 (Or.inl (iff_of_true ?_ ?_))⟩
  · simp only [WholeList, List.forall_mem_cons]
    exact ⟨.aggregate rfl onlyAlias_nil, hwhole, by simp⟩
  · simp only [WholeList, List.forall_mem_cons]
    exact ⟨.star (.bare rfl), by simp⟩

/-- Behind `(status)` neither FROM nor WHERE is seen. -/
theorem from_dropped_behind_group : ∃ s s' items items' ts ts' fr fr' tail tail',
    parse .mysql ⟨[("t", ⟨["a"], none⟩)], none⟩ ⟨[]⟩ "SELECT (status) FROM t WHERE a = 1" = .ok s ∧
    parse .mysql ⟨[("t", ⟨["a"], none⟩)], none⟩ ⟨[]⟩ "SELECT status FROM t WHERE a = 1" = .ok s' ∧
    (TokenStream.ofText .mysql "SELECT (status) FROM t WHERE a = 1".toList).tokens =
      ts ++ fr :: tail ∧
    (TokenStream.ofText .mysql "SELECT status FROM t WHERE a = 1".toList).tokens =
      ts' ++ fr' :: tail' ∧
    SpellsSelection .mysql items ts ∧ SpellsSelection .mysql items' ts' ∧
    fr.type = .keyword .FROM ∧ SameWord fr fr' ∧ tail ≠ [] ∧ NoSubQuery tail ∧
    "SELECT (status) FROM t WHERE a = 1".toList.drop fr.stop =
      "SELECT status FROM t WHERE a = 1".toList.drop fr'.stop ∧
    s.findings.tables ≠ s'.findings.tables ∧ s.findings.conditions ≠ s'.findings.conditions := by
  obtain ⟨s, hp, hfindings⟩ := parse_of_view .mysql ⟨[("t", ⟨["a"], none⟩)], none⟩ ⟨[]⟩
    "SELECT (status) FROM t WHERE a = 1" (fun s => (s.findings.tables, s.findings.conditions))
    (.empty, .empty) (by decide +kernel)
  obtain ⟨s', hp', hfindings'⟩ := parse_of_view .mysql ⟨[("t", ⟨["a"], none⟩)], none⟩ ⟨[]⟩
    "SELECT status FROM t WHERE a = 1" (fun s => (s.findings.tables, s.findings.conditions))
    (⟨[⟨"t", none⟩]⟩, ⟨[⟨[⟨⟨"a", "t"⟩, .equal, [.number (.integer 1)]⟩]⟩]⟩) (by decide +kernel)
  have hinside : Formed [.word ⟨.literal .identifier, "status", 8, 14⟩] :=
    .of_fits (by simpa using .word (by decide)) (by simp)
  have hname : Formed [.word ⟨.literal .identifier, "status", 7, 13⟩] :=
    .of_fits (by simpa using .word (by decide)) (by simp)
  have hgroup : WrittenItem.Spells .mysql (.group ⟨.symbol .leftParen, "(", 7, 8⟩
      [.word ⟨.literal .identifier, "status", 8, 14⟩] ⟨.symbol .rightParen, ")", 14, 15⟩ []) _ :=
    .group rfl hinside (.of_last (by simp [operators])) (by decide) rfl (.of_fits (by simp) (by simp))
  have hplain : WrittenItem.Spells .mysql (.parts
      [.word ⟨.literal .identifier, "status", 7, 13⟩]) _ :=
    .parts (by simp) hname (Or.inl (.of_last (by simp [operators]))) rfl (by decide)
  have hs := SpellsSelection.intro (s := ⟨.keyword .SELECT, "SELECT", 0, 6⟩) rfl
    (Joined.single hgroup) (by decide)
  have hs' := SpellsSelection.intro (s := ⟨.keyword .SELECT, "SELECT", 0, 6⟩) rfl
    (Joined.single hplain) (by decide)
  refine ⟨s, s', _, _, _, _, ⟨.keyword .FROM, "FROM", 16, 20⟩, ⟨.keyword .FROM, "FROM", 14, 18⟩,
    [⟨.literal .identifier, "t", 21, 22⟩, ⟨.keyword .WHERE, "WHERE", 23, 28⟩,
      ⟨.literal .identifier, "a", 29, 30⟩, ⟨.symbol .equal, "=", 31, 32⟩,
      ⟨.literal .int, "1", 33, 34⟩],
    [⟨.literal .identifier, "t", 19, 20⟩, ⟨.keyword .WHERE, "WHERE", 21, 26⟩,
      ⟨.literal .identifier, "a", 27, 28⟩, ⟨.symbol .equal, "=", 29, 30⟩,
      ⟨.literal .int, "1", 31, 32⟩], hp, hp', by decide +kernel, by decide +kernel, hs, hs', rfl,
    ⟨rfl, rfl⟩, by simp, by unfold NoSubQuery; decide, by decide +kernel, ?_, ?_⟩
  · rw [(Prod.mk.inj hfindings).1, (Prod.mk.inj hfindings').1]
    decide +kernel
  · rw [(Prod.mk.inj hfindings).2, (Prod.mk.inj hfindings').2]
    decide +kernel

end SqlFront

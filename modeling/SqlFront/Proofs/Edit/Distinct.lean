import SqlFront.Proofs.Edit.Reader
import SqlFront.Proofs.Edit.Sorting
import SqlFront.Proofs.Merge
import SqlFront.Proofs.Progress.Statement

/-!
# No token is edited twice

The readers of a statement edit the tokens of the text on one way through it, and merging queries
and adding columns edits no token. So the edits that stand for something in the source are edits of
different tokens, and sorting brings all edits into the order of their places.
-/

set_option autoImplicit false

namespace SqlFront

open SqlFront.Parser SqlFront.Clause SqlFront.Reading

variable {rule : ShardingRule} {catalog : Catalog}

/-! ## Statements without rows and queries -/

theorem update_edits : Follows EditsPlaces (update rule) := by
  refine .editsBehind follows_anyToken fun _ => .editsBehind follows_grammar fun g => ?_
  refine .editsBehind (follows_skipAll _) fun _ => (tableReferences_edits true).editsBefore fun _ => ?_
  exact follows_updateAssignments.bind fun _ => whereClause_edits

theorem deletion_edits : Follows EditsPlaces (deletion rule) := by
  refine .editsBehind follows_anyToken fun _ => .editsBehind follows_grammar fun g => ?_
  refine .editsBehind (follows_skipAll _) fun _ => ?_
  exact (tableReferences_edits true).editsBefore fun _ => whereClause_edits

theorem indexHasTable_found {kind : DefinitionKind} {w w' : Workspace Findings}
    (h : indexHasTable kind w = .ok true w') : w.cursor.isAt (.keyword .ON) = true := by
  cases kind with
  | createIndex =>
    obtain ⟨_, _, he, -⟩ := bind_ok.1 h
    exact (expect_ok.1 he).1
  | dropIndex =>
    have hat := (skipIf_ok.1 h).1
    rwa [Cursor.isAtAny_singleton] at hat
  | _ => cases h

theorem definedIndex_edits (kind : DefinitionKind) : Follows EditsPlaces (definedIndex kind) := by
  refine .editsBehind follows_skipExistence fun _ w u w' h => ?_
  obtain ⟨t, _, ht, h⟩ := bind_ok.1 h
  obtain ⟨rfl, rfl⟩ := current_ok.1 ht
  obtain ⟨name, w₁, hn, h⟩ := bind_ok.1 h
  obtain ⟨c, hc, rfl⟩ : ∃ c, w.cursor.advance = .ok c ∧ w₁ = ⟨c, w.draft⟩ := by
    obtain ⟨t, _, ht, hn⟩ := bind_ok.1 hn
    obtain ⟨-, rfl⟩ := current_ok.1 ht
    obtain ⟨_, w₂, ha, hn⟩ := bind_ok.1 hn
    obtain ⟨c, hc, rfl⟩ := advance_ok.1 ha
    exact ⟨c, hc, (pure_ok.1 hn).2.symm⟩
  obtain ⟨b, w₂, hb, h⟩ := bind_ok.1 h
  have h₂ : EditsNothing ⟨c, w.draft⟩ w₂ := follows_indexHasTable kind hb
  cases b with
  | false =>
    rw [if_neg Bool.false_ne_true] at h
    obtain rfl := modifyDraft_ok.1 h
    exact .left hc h₂ rfl rfl rfl
  | true =>
    obtain ⟨_, w₃, htable, h⟩ := bind_ok.1 h
    obtain rfl := modifyDraft_ok.1 h
    have hmarks := h₂.places (bareTable_edits htable)
    have hend : c.isAtEnd = false := isAtEnd_eq_false (indexHasTable_found hb) (by simp)
    have hsources : Workspace.sources ⟨w₃.cursor, w₃.draft.addEdit
        (.index w.cursor.current.start name w₃.draft.tables.singleName?)⟩ =
        w₃.sources ++ [.index w.cursor.current.start name w₃.draft.tables.singleName?] :=
      Edit.sources_add rfl
    rw [EditsPlaces, hsources]
    exact .first hend hc hmarks rfl

theorem definition_edits (first : Keyword) : Follows EditsPlaces (definition first) := by
  refine .editsBehind (skipUntil_edits _) fun _ => .editsBehind (follows_skipKeyword _) fun _ => ?_
  refine .ite ?_ (.editsBehind follows_isAt fun _ => .ite ?_ (.failAt _))
  · cases tableDefinition? first with
    | none => exact .failAt _
    | some kind =>
      refine Follows.editsBefore (.editsBehind follows_skipExistence fun _ => ?_) fun _ => .pure kind
      exact .discard (.editsSeparated (by simp) bareTable_edits)
  · cases indexDefinition? first with
    | none => exact .failAt _
    | some kind =>
      refine .editsBehind follows_anyToken fun _ => ?_
      exact (definedIndex_edits kind).editsBefore fun _ => .pure kind

theorem privilegeTable_edits {w w₁ w' : Workspace Findings} {c : Cursor} {u : Unit}
    (hc : w.cursor.advance = .ok c) (h₁ : EditsNothing ⟨c, w.draft⟩ w₁)
    (h : privilegeTable rule w.cursor.current w₁ = .ok u w') : EditsPlaces w w' := by
  simp only [privilegeTable] at h
  split at h
  · obtain rfl := modifyDraft_ok.1 h
    exact .left hc h₁ rfl rfl rfl
  · obtain ⟨-, rfl⟩ := pure_ok.1 h
    have h₂ : EditsNothing w w₁ := ⟨(Cursor.Reaches.single hc).trans h₁.reaches, h₁.same⟩
    exact h₂.tokens.places

theorem privilegeTarget_edits : Follows EditsPlaces (privilegeTarget rule) := by
  refine .editsBehind (skipUntil_edits _) fun _ => .editsBehind (follows_skipKeyword _) fun _ => ?_
  refine .ite (.editsBehind (follows_skipKeyword _) fun _ => ?_) (Follows.pure _).editsPlaces
  refine .editsBehind (follows_skipSymbol (by decide)) fun _ => ?_
  refine .ite (Follows.pure _).editsPlaces fun w u w' h => ?_
  obtain ⟨t, _, ht, h⟩ := bind_ok.1 h
  obtain ⟨rfl, rfl⟩ := current_ok.1 ht
  obtain ⟨_, _, ha, h⟩ := bind_ok.1 h
  obtain ⟨c, hc, rfl⟩ := advance_ok.1 ha
  obtain ⟨b, w₂, hb, h⟩ := bind_ok.1 h
  have h₂ : EditsNothing ⟨c, w.draft⟩ w₂ := follows_skipSymbol (by decide) hb
  have hw : EditsNothing w w₂ := ⟨(Cursor.Reaches.single hc).trans h₂.reaches, h₂.same⟩
  cases b with
  | false => exact privilegeTable_edits hc h₂ h
  | true =>
    obtain ⟨b, w₃, hb, h⟩ := bind_ok.1 h
    have h₃ : EditsNothing w₂ w₃ := follows_skipSymbol (by decide) hb
    refine hw.places (h₃.places ?_)
    cases b with
    | true => exact (Follows.pure ()).editsPlaces h
    | false =>
      obtain ⟨t, _, ht, h⟩ := bind_ok.1 h
      obtain ⟨rfl, rfl⟩ := current_ok.1 ht
      obtain ⟨_, _, ha, h⟩ := bind_ok.1 h
      obtain ⟨c', hc', rfl⟩ := advance_ok.1 ha
      exact privilegeTable_edits hc' (Stepwise.refl _) h

theorem access_edits (kind : AccessKind) : Follows EditsPlaces (access rule kind) := by
  have target : Follows EditsPlaces (do
      privilegeTarget rule
      return (none : Option Principal)) :=
    privilegeTarget_edits.editsBefore fun _ => .pure none
  have principal : Follows EditsPlaces principal? := by
    refine .editsBehind follows_current fun t => ?_
    cases t.type.keyword?.bind principalOf? with
    | none => exact (Follows.pure none).editsPlaces
    | some p => exact .editsBehind follows_anyToken fun _ => (Follows.pure _).editsPlaces
  cases kind with
  | grant | revoke | deny => exact target
  | _ => exact principal

theorem shown_edits : Follows EditsPlaces shown := by
  have source : Follows EditsNothing skipSource := follows_skipKeywords _
  have answer : ∀ kind : AdministrationKind,
      Follows EditsPlaces (pure kind : Parser Findings AdministrationKind) :=
    fun kind => (Follows.pure kind).editsPlaces
  have table : ∀ kind : AdministrationKind, Follows EditsPlaces (do
      bareTable
      return kind) :=
    fun kind => bareTable_edits.editsBefore fun _ => .pure kind
  refine .editsBehind (follows_skipKeyword _) fun _ => .editsBehind (follows_skipKeyword _) fun _ => ?_
  refine .ite (answer _) (.editsBehind (follows_skipKeyword _) fun _ => .ite ?_ ?_)
  · refine .editsBehind source fun _ => .ite ?_ (answer _)
    exact .editsBehind nameHere_edits fun _ => answer _
  refine .editsBehind (follows_skipKeywords _) fun _ => ?_
  refine .ite (.editsBehind source fun _ => table _) ?_
  refine .editsBehind (follows_skipKeyword _) fun _ => .ite ?_ ?_
  · exact .editsBehind (follows_expectKeyword _) fun _ => table _
  refine .editsBehind (follows_skipKeywords _) fun _ => ?_
  exact .ite (.editsBehind source fun _ => table _) (answer _)

theorem administration_edits (word : AdministrationWord) :
    Follows EditsPlaces (administration word) := by
  refine .editsBehind follows_anyToken fun _ => ?_
  cases word with
  | use => exact .editsBehind nameHere_edits fun _ => (Follows.pure _).editsPlaces
  | describe => exact bareTable_edits.editsBefore fun _ => .pure _
  | «show» => exact shown_edits

/-! ## INSERT -/

section

open Edit

variable {es fs : List Edit}

theorem sources_map {g : Edit → Edit} (hsource : ∀ e, e.isSource = true → g e = e)
    (htext : ∀ e, e.isSource = false → (g e).isSource = false) :
    sources (es.map g) = sources es := by
  induction es with
  | nil => rfl
  | cons e es ih =>
    unfold sources at ih ⊢
    rw [List.map_cons, List.filter_cons, List.filter_cons, ih]
    cases he : e.isSource with
    | true => rw [hsource e he, he]
    | false => simp only [htext e he, Bool.false_eq_true, if_false]

theorem sources_appendItem? {item : String} (h : appendItem? item es = some fs) :
    sources fs = sources es := by
  induction es generalizing fs with
  | nil => cases h
  | cons e es ih =>
    have tail : ∀ {gs}, appendItem? item es = some gs → fs = e :: gs →
        sources fs = sources (e :: es) := by
      rintro gs hgs rfl
      have hsources := ih hgs
      unfold sources at hsources ⊢
      rw [List.filter_cons, List.filter_cons, hsources]
    cases e with
    | items start items leading =>
      obtain rfl := Option.some.inj h
      rfl
    | _ =>
      obtain ⟨gs, hgs, hfs⟩ := Option.map_eq_some_iff.1 h
      exact tail hgs hfs.symm

theorem sources_addKeyColumn (key : String) (s : InsertStatement) :
    sources (addKeyColumn key s).findings.edits = sources s.findings.edits := by
  simp only [addKeyColumn]
  split
  · next h => exact sources_appendItem? h
  · exact sources_addText rfl

theorem sources_catalogColumns (table : String) (start : ℕ) (s : InsertStatement) :
    sources (catalogColumns rule catalog table start s).findings.edits =
      sources s.findings.edits := by
  obtain ⟨hf, -⟩ := addColumns_findings (rule.generatedKey? table) table (catalog.columns table) s
  simp only [catalogColumns, hf, sources_append]
  exact List.append_nil _

theorem sources_dropColumns (s : InsertStatement) :
    sources (dropColumns s).findings.edits = sources s.findings.edits := by
  simp only [dropColumns, sources, List.filter_filter]
  refine List.filter_congr fun e _ => ?_
  cases e <;> rfl

theorem sources_shortenColumns (key? : Option String) (n : ℕ) (s : InsertStatement) :
    sources (shortenColumns key? n s).findings.edits = sources s.findings.edits := by
  cases key? with
  | none => rfl
  | some key =>
    simp only [shortenColumns, removeKeyColumn]
    split
    · split
      · rfl
      · refine sources_map (fun e he => ?_) fun e he => ?_
        · cases e with
          | items => cases he
          | _ => rfl
        · cases e with
          | items => rfl
          | _ => exact he
    · rfl

end

theorem intoClause_edits : Follows EditsPlaces intoClause := by
  refine .editsBehind follows_grammar fun g => .editsBehind follows_refuseIf fun _ => ?_
  refine .editsBehind (skipUntil_edits _) fun _ => .editsBehind (follows_expectKeyword _) fun _ => ?_
  refine (Follows.editsPlaces_onFindings bareTable_edits).editsBefore fun _ => ?_
  exact .whileM (follows_skipKeywords _) (FindingsCourse.parentheses.bind fun _ => .pure _)

theorem columnList_edits : Follows EditsTokens (columnList rule catalog) := by
  have written : ∀ table, Follows EditsTokens (writtenColumns rule table) := by
    refine fun table => Follows.bind (.discard (.commaSeparated ?_)) fun _ => ?_
    · exact follows_columnName.bind fun _ => .editsTokens (follows_modifyFindings fun _ => rfl)
    · refine follows_current.bind fun t => ?_
      refine Follows.bind (.editsTokens (follows_modifyFindings fun _ => rfl)) fun _ => ?_
      exact follows_expectSymbol (by decide)
  refine follows_insertTable.bind fun table => (follows_skipSymbol (by decide)).bind fun _ => ?_
  refine .ite (written table) (.ite (follows_current.bind fun t => ?_) (.pure _))
  exact .editsTokens (follows_modifyFindings fun s => sources_catalogColumns table t.start s)

instance : InsertCourse (EditsTokens (σ := InsertStatement)) where
  sign := .editsTokens_onFindings follows_assignmentSign
  row _ hat hc := .here (isAtEnd_eq_false hat (by simp)) hc rfl rfl rfl
  record hg _ := .editsTokens (follows_modifyFindings fun s => congrArg Edit.sources (hg s))
  shorten _ _ := .editsTokens (follows_modifyFindings fun s => sources_shortenColumns _ _ s)
  drop := .editsTokens (follows_modifyFindings sources_dropColumns)
  complete key := .editsTokens (follows_modifyFindings fun s => by
    split
    · exact sources_addKeyColumn key s
    · rfl)

theorem insertion_edits : Follows EditsPlaces (insertion rule catalog) := by
  refine .editsBehind follows_anyToken fun _ => intoClause_edits.editsBefore fun _ => ?_
  refine columnList_edits.bind fun _ => follows_refuseIf.bind fun _ => ?_
  exact follows_insertionRows

/-! ## SELECT -/

def chainSources (chain : List Query) : List Edit :=
  chain.flatMap fun q => Edit.sources q.findings.edits

def LevelEdits (w w' : Workspace Query) (inner : List Query) : Prop :=
  Cursor.MarksTokens w.cursor w'.cursor w.sources (chainSources inner ++ w'.sources)

theorem LevelEdits.of_query {w w' : Workspace Query} (h : EditsTokens w w') : LevelEdits w w' [] :=
  h

theorem LevelEdits.extend {w₀ w w' w₁ : Workspace Query} {inner : List Query}
    (h₀ : EditsTokens w₀ w) (h : LevelEdits w w' inner) (h₁ : EditsTokens w' w₁) :
    LevelEdits w₀ w₁ inner :=
  (Cursor.MarksTokens.append h₀ h).append (h₁.frame (chainSources inner))

theorem nestedQuery_edits {sub : Parser Query (List Query)} {w w' : Workspace Query}
    {inner : List Query}
    (hsub : ∀ {v v' : Workspace Query} {inner : List Query}, sub v = .ok inner v' →
      LevelEdits v v' inner)
    (h : nestedQuery sub w = .ok inner w') : LevelEdits w w' inner := by
  obtain ⟨q, chain, c, c', hs, -, hc', rfl, rfl⟩ := nestedQuery_ok h
  have hquery : Cursor.MarksTokens w.cursor c (w.sources ++ [])
      (w.sources ++ (chainSources chain ++ Edit.sources q.findings.edits)) :=
    (hsub hs).frame w.sources
  rw [List.append_nil] at hquery
  refine (hquery.append (.of_eq (Cursor.Reaches.single hc') rfl)).perm ?_
  rw [sources_setFindings, chainSources, List.flatMap_cons]
  exact List.perm_append_comm.trans (List.perm_append_comm.append_left _)

theorem behindNestedQuery_edits : Follows EditsTokens (behindNestedQuery rule) := by
  refine follows_alias?.bind fun _ => (Follows.editsTokens_onFindings joins_edits).bind fun _ => ?_
  exact .editsIf (by simp) (.editsPlaces_onFindings (tableReferences_edits false)) (.pure _)

theorem fromClause_edits {sub : Parser Query (List Query)} {w w' : Workspace Query}
    {inner : List Query}
    (hsub : ∀ {v v' : Workspace Query} {inner : List Query}, sub v = .ok inner v' →
      LevelEdits v v' inner)
    (h : fromClause rule sub w = .ok inner w') : LevelEdits w w' inner := by
  have hend : w.cursor.isAtAny [.keyword .FROM] = true → w.cursor.isAtEnd = false :=
    isAtEnd_of_not_mem (by simp)
  cases fromClause_run h with
  | absent => exact .of_query (Stepwise.refl w)
  | tables hat hc _ ht =>
    have htables := Follows.editsPlaces_onFindings (tableReferences_edits false) ht
    exact .of_query (.behind (hend hat) hc htables)
  | @query c c' w₁ _ _ hat hc hopen hc' hn hj =>
    have hfrom : EditsNothing w ⟨c', w.draft⟩ :=
      ⟨(Cursor.Reaches.single hc).trans (Cursor.Reaches.single hc'), rfl⟩
    exact .extend hfrom.tokens (nestedQuery_edits hsub hn) (behindNestedQuery_edits hj)

theorem queryLevel_edits {n : ℕ} {w w' : Workspace Query} {inner : List Query}
    (h : queryLevel rule n w = .ok inner w') : LevelEdits w w' inner := by
  -- By induction on the levels.
  induction n generalizing w w' inner with
  | zero => exact (throw_ok.1 h).elim
  | succ n ih =>
    obtain ⟨w₁, w₂, w₃, h₁, h₂, h₃, h₄⟩ := queryLevel_succ_ok h
    have hwhere : EditsTokens w₂ w₃ := Follows.editsTokens_onFindings whereClause_edits h₃
    exact (fromClause_edits ih h₂).extend (queryHead_edits h₁)
      (Stepwise.trans hwhere (follows_queryTail h₄))

theorem mergeChain_sources (q : Query) (inner : List Query) :
    (Edit.sources (q.mergeChain inner).findings.edits).Perm
      (chainSources inner ++ Edit.sources q.findings.edits) := by
  induction inner generalizing q with
  | nil => exact List.Perm.refl _
  | cons r inner ih =>
    have hsorted := (Edit.sorted_stable
      ((r.mergeChain inner).findings.edits ++ q.findings.edits)).perm.filter Edit.isSource
    refine hsorted.trans ?_
    rw [List.filter_append]
    refine ((ih r).append_right _).trans ?_
    exact List.perm_append_comm.append_right _

theorem derive_sources (q : Query) :
    Edit.sources (q.derive catalog).findings.edits = Edit.sources q.findings.edits := by
  have grouped : ∀ q : Query,
      Edit.sources q.orderAsGrouped.findings.edits = Edit.sources q.findings.edits := by
    intro q
    unfold Query.orderAsGrouped
    split
    · rfl
    · exact Edit.sources_addText rfl
  unfold Query.derive
  split
  · rfl
  · simp only [grouped]
    split
    · rfl
    · exact Edit.sources_addText rfl

/-! ## The whole text -/

/-- The edits of the source in a statement are marks on the way that its reading takes. -/
theorem Reads.marks {c c' : Cursor} {s : Statement} (h : Reads rule catalog c c' s) :
    ∃ c₁, Cursor.MarksPlaces c c₁ [] (Edit.sources s.findings.edits) := by
  cases h with
  | @select n q inner _ hr =>
    refine ⟨_, (queryLevel_edits hr).toMarksPlaces.perm ?_⟩
    change (Edit.sources ((q.mergeChain inner).derive catalog).findings.edits).Perm _
    rw [derive_sources]
    exact mergeChain_sources q inner
  | insert _ hr => exact ⟨_, insertion_edits hr⟩
  | update _ hr => exact ⟨_, update_edits hr⟩
  | delete _ hr => exact ⟨_, deletion_edits hr⟩
  | definition hc hr => exact ⟨_, .behind (Cursor.Reaches.single hc) (definition_edits _ hr)⟩
  | access hc hr => exact ⟨_, .behind (Cursor.Reaches.single hc) (access_edits _ hr)⟩
  | transaction _ => exact ⟨_, (Cursor.MarksTokens.of_eq (Cursor.Reaches.refl c) rfl).toMarksPlaces⟩
  | administration hr => exact ⟨_, administration_edits _ hr⟩

/-- In an accepted text the edits come in the order of their places, and those that stand for
something in the source stand at different tokens of the text. -/
theorem no_token_edited_twice {d : Dialect} {sql : String} {s : Statement}
    (h : parse d rule catalog sql = .ok s) : Edit.Ordered s.findings.edits ∧
      ((Edit.sources s.findings.edits).map Edit.start).Nodup ∧
      ∀ e ∈ Edit.sources s.findings.edits, ∃ t : Token, e.start = t.start ∧
        (t ∈ (TokenStream.ofText d sql.toList).tokens ∨
          (TokenStream.ofText d sql.toList).ending = .ok t) := by
  obtain ⟨s₀, c', htext, rfl⟩ := parse_ok.1 h
  obtain ⟨c, hc, hreads⟩ := text_reads htext
  obtain ⟨c₁, hmarked⟩ := hreads.marks
  obtain ⟨es, hes, hmarks⟩ := hmarked.marks (Cursor.ordered_of_text hc)
  have hsources : (Edit.sources (Edit.sorted s₀.findings.edits)).Perm es :=
    ((Edit.sorted_stable s₀.findings.edits).perm.filter _).trans hes
  rw [sorted_edits]
  refine ⟨Edit.sorted_ordered _, ?_, fun e he => ?_⟩
  · exact (hsources.map _).nodup_iff.2 hmarks.distinct
  · obtain ⟨c₂, hc₂, hplace⟩ := hmarks.token e (hsources.mem_iff.1 he)
    exact ⟨c₂.current, hplace, Cursor.reached_or_ending hc hc₂⟩

/-- A grouped average of a table that is named twice, with a limit. -/
theorem no_token_edited_twice_grouped : ∃ (sql : String) (s : Statement),
    sql = "SELECT AVG(id) FROM t WHERE t.id = 1 GROUP BY k LIMIT 2" ∧
    parse .mysql ⟨[], some "ds"⟩ ⟨[]⟩ sql = .ok s ∧
    s.findings.edits = [.items 15 ["COUNT(id) AS AVG_DERIVED_COUNT_0 ",
      "SUM(id) AS AVG_DERIVED_SUM_0 ", "k AS GROUP_BY_DERIVED_0 "] false,
      .table 20 "t", .table 28 "t", .orderBy 47, .rowCount 54 2] ∧
    Edit.Ordered s.findings.edits ∧ ((Edit.sources s.findings.edits).map Edit.start).Nodup ∧
    ∀ e ∈ Edit.sources s.findings.edits, ∃ t : Token, e.start = t.start ∧
      (t ∈ (TokenStream.ofText .mysql sql.toList).tokens ∨
        (TokenStream.ofText .mysql sql.toList).ending = .ok t) := by
  have hread : readEdits? .mysql ⟨[], some "ds"⟩ ⟨[]⟩
      "SELECT AVG(id) FROM t WHERE t.id = 1 GROUP BY k LIMIT 2" =
      some [.table 20 "t", .table 28 "t", .rowCount 54 2,
        .items 15 ["COUNT(id) AS AVG_DERIVED_COUNT_0 ", "SUM(id) AS AVG_DERIVED_SUM_0 ",
          "k AS GROUP_BY_DERIVED_0 "] false, .orderBy 47] := by decide +kernel
  obtain ⟨s, hs, hedits⟩ := parse_of_readEdits hread
  refine ⟨_, s, rfl, hs, ?_, no_token_edited_twice hs⟩
  rw [hedits]
  cbv

end SqlFront

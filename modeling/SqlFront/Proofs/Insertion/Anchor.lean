import SqlFront.Proofs.Insertion.ListEnd
import SqlFront.Proofs.Lexeme.Placed
import SqlFront.Settings.Basic

/-!
# Places for column lists

An edit that adds columns has its place between the name of the table and the rows, and no token or
comment is cut there. A parenthesis of a written list is such a place. The character in front of the
rows is one if the name of the table and every comment end before it; the start of the text is none.
-/

set_option autoImplicit false

namespace SqlFront

open SqlFront.Parser SqlFront.Clause SqlFront.Reading

variable {d : Dialect} {rule : ShardingRule} {catalog : Catalog} {text : List Char}
  {table row values front prev r : Token} {parts list rest before behind us ts : List Token}
  {p n : ℕ}

/-- The place lies between the name of the table and the rows, and inside no token or comment. -/
structure Anchored (d : Dialect) (text : List Char) (table row : Token) (p : ℕ) : Prop where
  behindTable : table.stop ≤ p
  beforeRows : p ≤ row.start
  token : ∀ t ∈ (TokenStream.ofText d text).tokens, ¬(t.start < p ∧ p < t.stop)
  comment : ∀ a b, CommentAt d text a b → ¬(a < p ∧ p < b)

/-- The list is written, or the catalog gives it and there is a character between the name of the
table and the token in front of which it is put, the last of which belongs to no comment. -/
def ListPlaced (d : Dialect) (text : List Char) (catalog : Catalog) (table front : Token) : Prop :=
  front.type = .symbol .leftParen ∨
    catalog.containsTable (unquoted table.literals) = true ∧ table.stop < front.start ∧
      ∀ a, ¬CommentAt d text a front.start

theorem anchored_start (hr : r ∈ (TokenStream.ofText d text).tokens) (htable : table.stop ≤ r.start)
    (hrow : r.start ≤ row.start) : Anchored d text table row r.start := by
  have hnonempty := (TokenStream.standsIn hr).nonempty
  refine ⟨htable, hrow, fun t ht => ?_, fun a b hab => ?_⟩
  · rcases TokenStream.apart ht hr with rfl | h | h <;> omega
  · rcases hab.apart r hr with h | h <;> omega

theorem anchored_before
    (hts : (TokenStream.ofText d text).tokens = before ++ prev :: front :: behind)
    (hprev : prev.stop < front.start ∨ prev.type = .symbol .rightParen)
    (hcomment : ∀ a, ¬CommentAt d text a front.start) (htable : table.stop < front.start)
    (hrow : front.start ≤ row.start) : Anchored d text table row (front.start - 1) := by
  have hmem : prev ∈ (TokenStream.ofText d text).tokens := by simp [hts]
  have hfront : front ∈ (TokenStream.ofText d text).tokens := by simp [hts]
  have hnonempty := (TokenStream.standsIn hmem).nonempty
  have hwidth := (TokenStream.standsIn hfront).nonempty
  have hle := TokenStream.stop_le hts List.mem_cons_self
  refine ⟨by omega, by omega, fun t ht => ?_, fun a b hab => ?_⟩
  · rw [hts, List.mem_append, List.mem_cons, List.mem_cons] at ht
    rcases ht with ht | rfl | rfl | ht
    · obtain ⟨us, vs, rfl⟩ := List.append_of_mem ht
      have hsplit : (TokenStream.ofText d text).tokens =
          us ++ t :: (vs ++ prev :: front :: behind) := by simp [hts]
      have hbefore := TokenStream.stop_le hsplit (u := prev) (by simp)
      omega
    · rcases hprev with hlt | hright
      · omega
      · have hstop := TokenStream.symbol_stop hmem hright
        have hone : Symbol.rightParen.spelling.length = 1 := by decide
        omega
    · omega
    · have hsplit : (TokenStream.ofText d text).tokens =
          (before ++ [prev]) ++ front :: behind := by simp [hts]
      have hbehind := TokenStream.stop_le hsplit ht
      omega
  · rcases hab.apart front hfront with h | h
    · have hne : b ≠ front.start := fun h => hcomment a (h ▸ hab)
      omega
    · omega

/-- Where it is put in front of a token, the list is behind the name of the table only with a
character in between, and in no comment only if none ends there. -/
theorem Anchored.placed (h : Anchored d text table row (front.start - 1))
    (htable : table ∈ (TokenStream.ofText d text).tokens)
    (hfront : front ∈ (TokenStream.ofText d text).tokens) :
    table.stop < front.start ∧ ∀ a, ¬CommentAt d text a front.start := by
  have hplace := h.behindTable
  have hnonempty := (TokenStream.standsIn htable).nonempty
  obtain ⟨hwidth, hstop, -⟩ := TokenStream.standsIn hfront
  refine ⟨by omega, fun a ha => ?_⟩
  have hlength := ha.two_le (by omega)
  exact h.comment a front.start ha ⟨by omega, by omega⟩

/-! ## The tokens of an INSERT -/

theorem listFront_split (row : Token) (rest : List Token) (hparts : SpellsPartition parts) (hlist : SpellsEnclosed list)
    (hfront : (listFront d parts list values).type ≠ .symbol .leftParen) :
    ∃ before prev behind, table :: (parts ++ (list ++ values :: row :: rest)) =
      before ++ prev :: listFront d parts list values :: behind ∧ row ∈ behind ∧
        (prev = table ∨ prev.type = .symbol .rightParen) := by
  cases hlist with
  | absent =>
    cases hparts with
    | absent =>
      refine ⟨[], table, row :: rest, ?_, List.mem_cons_self, Or.inl rfl⟩
      simp [listFront]
    | @present p l us _ _ hus =>
      by_cases hread : Keyword.PARTITION ∈ d.grammar.betweenTableAndValues
      · obtain ⟨vs, r, rfl, hr⟩ := hus.last_rightParen
        refine ⟨table :: p :: l :: vs, r, row :: rest, ?_, List.mem_cons_self, Or.inr hr⟩
        simp [listFront, hread]
      · refine ⟨[], table, l :: (us ++ values :: row :: rest), ?_, by simp, Or.inl rfl⟩
        simp [listFront, hread]
  | @present l' us' hl' _ =>
    cases hparts with
    | absent => exact (hfront (by simpa [listFront] using hl')).elim
    | @present p l us _ _ _ =>
      by_cases hread : Keyword.PARTITION ∈ d.grammar.betweenTableAndValues
      · exact (hfront (by simpa [listFront, hread] using hl')).elim
      · refine ⟨[], table, l :: (us ++ (l' :: us' ++ values :: row :: rest)), ?_, by simp,
          Or.inl rfl⟩
        simp [listFront, hread]

variable {ins into : Token} {sql : String}

theorem anchored_iff_placed
    (hts : (TokenStream.ofText d text).tokens =
      ins :: into :: table :: (parts ++ (list ++ values :: row :: rest)))
    (hparts : SpellsPartition parts) (hlist : SpellsEnclosed list)
    (hend : ListEnd catalog (unquoted table.literals) (listFront d parts list values) list p) :
    Anchored d text table row p ↔
      ListPlaced d text catalog table (listFront d parts list values) := by
  have htable : table ∈ (TokenStream.ofText d text).tokens := by simp [hts]
  have htail : (TokenStream.ofText d text).tokens =
      [ins, into] ++ table :: (parts ++ (list ++ values :: row :: rest)) := by simp [hts]
  cases hend with
  | @written r hfront hr =>
    obtain ⟨us, vs, rfl⟩ := List.append_of_mem hr
    have hsplit : (TokenStream.ofText d text).tokens =
        (ins :: into :: table :: (parts ++ us)) ++ r :: (vs ++ values :: row :: rest) := by
      simp [hts]
    have hmem : r ∈ (TokenStream.ofText d text).tokens := by simp [hsplit]
    have hwidth := (TokenStream.standsIn hmem).nonempty
    have hrow := TokenStream.stop_le hsplit (u := row) (by simp)
    refine iff_of_true ?_ (Or.inl hfront)
    exact anchored_start hmem (TokenStream.stop_le htail (by simp)) (by omega)
  | given hfront hcatalog =>
    obtain ⟨before, prev, behind, hlist, hrow, hprev⟩ :=
      listFront_split row rest hparts hlist hfront
    have hsplit : (TokenStream.ofText d text).tokens =
        (ins :: into :: before) ++ prev :: listFront d parts list values :: behind := by
      rw [hts, hlist]
      rfl
    have hmem : listFront d parts list values ∈ (TokenStream.ofText d text).tokens := by
      simp [hsplit]
    have hbehind : (TokenStream.ofText d text).tokens =
        (ins :: into :: before ++ [prev]) ++ listFront d parts list values :: behind := by
      simp [hsplit]
    have hwidth := (TokenStream.standsIn hmem).nonempty
    have hle := TokenStream.stop_le hbehind hrow
    constructor
    · intro h
      exact Or.inr ⟨hcatalog, h.placed htable hmem⟩
    · rintro (h | ⟨-, hlt, hcomment⟩)
      · exact (hfront h).elim
      · refine anchored_before hsplit (hprev.imp_left fun h => by rwa [h]) hcomment hlt ?_
        omega
  | unknown hfront hcatalog =>
    have hwidth := (TokenStream.standsIn htable).nonempty
    refine iff_of_false (fun h => ?_) fun h => ?_
    · have hplace := h.behindTable
      omega
    · rcases h with h | ⟨h, -⟩
      · exact hfront h
      · rw [hcatalog] at h
        cases h

/-! ## Accepted texts -/

theorem sorted_addsAtEnd {s : InsertStatement} (h : s.AddsAtEnd) {e : Edit}
    (he : e ∈ (Statement.insert s.sorted).findings.edits) (hadds : e.addsColumns = true) :
    e.start = s.columnListStop :=
  h e (List.mem_mergeSort.1 he) hadds

/-- In an accepted INSERT with rows of values all edits that add columns are anchored between the
name of the table and the rows, as long as there are none or the list is placed there. -/
theorem column_edits_anchored_iff {s : Statement}
    (hts : (TokenStream.ofText d sql.toList).tokens =
      ins :: into :: table :: (parts ++ (list ++ values :: row :: rest)))
    (hins : ins.type = .keyword .INSERT) (hinto : into.type = .keyword .INTO)
    (hparts : SpellsPartition parts) (hlist : SpellsEnclosed list)
    (hvalues : values.type ∈ keywordTypes (.VALUES :: d.grammar.valuesSynonyms))
    (hparse : parse d rule catalog sql = .ok s) :
    (∀ e ∈ s.findings.edits, e.addsColumns = true → Anchored d sql.toList table row e.start) ↔
      ((∃ e ∈ s.findings.edits, e.addsColumns = true) →
        ListPlaced d sql.toList catalog table (listFront d parts list values)) := by
  have hsplit : (TokenStream.ofText d sql.toList).tokens =
      ins :: into :: table :: (parts ++ list) ++ values :: row :: rest := by simp [hts]
  have hrun := parse_insertion rule catalog hsplit hins (by simp) fun c hc hp =>
    settles_insertionEnd rule catalog (w := ⟨c, {}⟩) hinto hparts hlist
      hvalues hc rfl hp
  rw [hparse] at hrun
  obtain ⟨v, ⟨hadds, hend⟩, hs⟩ | ⟨f, -, hf⟩ := hrun
  · obtain rfl := Except.ok.inj hs
    have hiff := anchored_iff_placed hts hparts hlist hend
    constructor
    · rintro h ⟨e, he, hadd⟩
      rw [← hiff, ← sorted_addsAtEnd hadds he hadd]
      exact h e he hadd
    · intro h e he hadd
      rw [sorted_addsAtEnd hadds he hadd, hiff]
      exact h ⟨e, he, hadd⟩
  · cases hf

/-- A list of the catalog with a blank in front of the rows. -/
theorem column_edits_anchored_iff_given : ∃ s : Statement,
    parse .mysql ⟨[], some "ds"⟩ ⟨[("t", ["id"])]⟩ "INSERT INTO t VALUES (1)" = .ok s ∧
    .items 13 ["id"] true ∈ s.findings.edits ∧
    ∀ e ∈ s.findings.edits, e.addsColumns = true →
      Anchored .mysql "INSERT INTO t VALUES (1)".toList ⟨.literal .identifier, "t", 12, 13⟩
        ⟨.symbol .leftParen, "(", 21, 22⟩ e.start := by
  have hread : readEdits? .mysql ⟨[], some "ds"⟩ ⟨[("t", ["id"])]⟩ "INSERT INTO t VALUES (1)" =
      some [.table 12 "t", .insertColumn 13 "(", .items 13 ["id"] true, .insertColumn 13 ")",
        .insertValues 21 "t"] := by decide +kernel
  obtain ⟨s, hs, hedits⟩ := parse_of_readEdits hread
  refine ⟨s, hs, hedits ▸ List.mem_mergeSort.2 (by simp), ?_⟩
  have htokens : (TokenStream.ofText .mysql "INSERT INTO t VALUES (1)".toList).tokens =
      ⟨.keyword .INSERT, "INSERT", 0, 6⟩ :: ⟨.keyword .INTO, "INTO", 7, 11⟩ ::
        ⟨.literal .identifier, "t", 12, 13⟩ :: ([] ++ ([] ++ ⟨.keyword .VALUES, "VALUES", 14, 20⟩ ::
          ⟨.symbol .leftParen, "(", 21, 22⟩ :: [⟨.literal .int, "1", 22, 23⟩,
            ⟨.symbol .rightParen, ")", 23, 24⟩])) := by decide +kernel
  refine (column_edits_anchored_iff htokens rfl rfl .absent .absent
    (by decide) hs).2 fun _ => Or.inr ⟨by decide, by decide, fun a ha => ?_⟩
  -- A comment in front of the rows would have to begin in the name of the table.
  have hcomment : CommentAt .mysql "INSERT INTO t VALUES (1)".toList a 14 := ha
  have hlength := hcomment.two_le (by decide)
  have hname : ⟨.literal .identifier, "t", 12, 13⟩ ∈
      (TokenStream.ofText .mysql "INSERT INTO t VALUES (1)".toList).tokens := by
    rw [htokens]
    decide
  rcases hcomment.apart _ hname with h | h <;> simp only at h <;> omega

/-- Without a blank in front of the rows the list is put into the name of the table. -/
theorem list_put_into_table_name : ∃ (settings : Settings) (s : Statement) (e : Edit),
    settings.validate = .ok () ∧
    (TokenStream.ofText .mysql "INSERT INTO \x60t_order\x60VALUES (1, 2, 3)".toList).tokens =
      [⟨.keyword .INSERT, "INSERT", 0, 6⟩, ⟨.keyword .INTO, "INTO", 7, 11⟩,
        ⟨.literal .identifier, "\x60t_order\x60", 12, 21⟩, ⟨.keyword .VALUES, "VALUES", 21, 27⟩,
        ⟨.symbol .leftParen, "(", 28, 29⟩, ⟨.literal .int, "1", 29, 30⟩,
        ⟨.symbol .comma, ",", 30, 31⟩, ⟨.literal .int, "2", 32, 33⟩,
        ⟨.symbol .comma, ",", 33, 34⟩, ⟨.literal .int, "3", 35, 36⟩,
        ⟨.symbol .rightParen, ")", 36, 37⟩] ∧
    parse .mysql (.ofSettings settings.sharding) (.ofSettings settings.sharding)
      "INSERT INTO \x60t_order\x60VALUES (1, 2, 3)" = .ok s ∧
    e ∈ s.findings.edits ∧ e.addsColumns = true ∧
    ¬Anchored .mysql "INSERT INTO \x60t_order\x60VALUES (1, 2, 3)".toList
      ⟨.literal .identifier, "\x60t_order\x60", 12, 21⟩ ⟨.symbol .leftParen, "(", 28, 29⟩
      e.start := by
  have hread : readEdits? .mysql ⟨[("t_order", ⟨["user_id"], some "order_id"⟩)], none⟩
      ⟨[("t_order", ["order_id", "user_id", "status"])]⟩
      "INSERT INTO \x60t_order\x60VALUES (1, 2, 3)" =
      some [.table 12 "\x60t_order\x60", .insertColumn 20 "(",
        .items 20 ["order_id", "user_id", "status"] true, .insertColumn 20 ")",
        .insertValues 28 "t_order"] := by decide +kernel
  obtain ⟨s, hs, hedits⟩ := parse_of_readEdits hread
  refine ⟨{ sharding := { tables := [{
      logicTable := "t_order"
      shardingColumns := ["user_id"]
      generatedKey? := some "order_id"
      columns := ["order_id", "user_id", "status"] }] } }, s, .insertColumn 20 "(",
    by decide +kernel, by decide +kernel, hs, hedits ▸ List.mem_mergeSort.2 (by simp), rfl,
    fun h => ?_⟩
  exact absurd h.behindTable (by decide)

end SqlFront

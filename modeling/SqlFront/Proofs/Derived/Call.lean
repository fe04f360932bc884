import SqlFront.Proofs.Derived.Level
import SqlFront.Proofs.Lexeme.Front
import SqlFront.Proofs.OperandChain

/-!
# Calls of aggregate functions in a text

A select list is the only place where the call of an aggregate function becomes an item. The item
has the function that the text names there, and the text between the parentheses behind it.
-/

set_option autoImplicit false

namespace SqlFront

open SqlFront.Parser SqlFront.Clause SqlFront.Reading

variable {d : Dialect} {rule : ShardingRule} {catalog : Catalog} {sql : String} {t : Token}
  {us vs ts : List Token}

/-! ## Arguments -/

inductive Argument (text : List Char) (start : ℕ) : List Token → List Token → String → Prop
  | closed {arg post : List Token} {r : Token} : Closes 0 (arg ++ [r]) →
      Argument text start arg (r :: post) (slice text start r.start)
  | unclosed {arg : List Token} : (∀ us vs, arg = us ++ vs → ¬Closes 0 us) →
      Argument text start arg [] (slice text start text.length)

theorem closes_replicate (n : ℕ) (hr : t.type = .symbol .rightParen) :
    Closes n (List.replicate (n + 1) t) := by
  induction n with
  | zero => exact .last hr
  | succ n ih => exact .close hr ih

theorem not_closes_of_open {n : ℕ} (hopen : ∀ ks, Closes n ks → Closes 0 (ts ++ ks))
    (us vs : List Token) (hts : ts = us ++ vs) : ¬Closes 0 us := by
  intro hus
  have hclosed := hopen _ (closes_replicate (t := ⟨.symbol .rightParen, ")", 0, 1⟩) n rfl)
  have hsplit : us ++ (vs ++ List.replicate (n + 1) ⟨.symbol .rightParen, ")", 0, 1⟩) =
      (ts ++ List.replicate (n + 1) ⟨.symbol .rightParen, ")", 0, 1⟩) ++ [] := by
    rw [hts, List.append_nil, List.append_assoc]
  have hnil := (hus.unique hclosed hsplit).2
  simp at hnil

variable {w v : Workspace Findings}

theorem skipNested_run {start n : ℕ} (hw : w.cursor.Faces (t :: ts)) (ht : t.type ≠ .endOfText) :
    Ensures w (skipNested start n) fun x v => w.cursor.advance = .ok v.cursor ∧
      ((Closes n [t] ∧ x = .inr (slice w.cursor.text start t.start)) ∨
        ∃ m, x = .inl m ∧ ∀ ks, Closes m ks → Closes n (t :: ks)) := by
  have moved : ∀ {c : Cursor} {f : Findings} {x y : ℕ ⊕ String} {v : Workspace Findings} {m : ℕ},
      w.cursor.advance = .ok c → y = .inl m → (∀ ks, Closes m ks → Closes n (t :: ks)) →
      (pure y : Parser Findings (ℕ ⊕ String)) ⟨c, f⟩ = .ok x v →
      w.cursor.advance = .ok v.cursor ∧
        ((Closes n [t] ∧ x = .inr (slice w.cursor.text start t.start)) ∨
          ∃ m, x = .inl m ∧ ∀ ks, Closes m ks → Closes n (t :: ks)) := by
    intro c f x y v m hc hy hm h
    obtain ⟨rfl, rfl⟩ := pure_ok.1 h
    exact ⟨hc, Or.inr ⟨m, hy, hm⟩⟩
  refine .atCurrent ?_
  rw [hw.current]
  split <;> intro x v h
  case h_1 hq =>
    obtain ⟨_, _, hcount, h⟩ := bind_ok.1 h
    obtain ⟨-, rfl⟩ := countPlaceholder_ok.1 hcount
    obtain ⟨_, _, ha, h⟩ := bind_ok.1 h
    obtain ⟨c, hc, rfl⟩ := advance_ok.1 ha
    exact moved hc rfl (fun ks hks => .token (by simp [hq]) (by simp [hq]) ht hks) h
  case h_2 hl =>
    obtain ⟨_, _, ha, h⟩ := bind_ok.1 h
    obtain ⟨c, hc, rfl⟩ := advance_ok.1 ha
    exact moved hc rfl (fun ks hks => .deeper hl hks) h
  case h_3 hr =>
    obtain ⟨_, _, ha, h⟩ := bind_ok.1 h
    obtain ⟨c, hc, rfl⟩ := advance_ok.1 ha
    cases n with
    | zero =>
      obtain ⟨c', _, hcursor, h⟩ := bind_ok.1 h
      obtain ⟨rfl, rfl⟩ := cursor_ok.1 hcursor
      obtain ⟨rfl, rfl⟩ := pure_ok.1 h
      refine ⟨hc, Or.inl ⟨.last hr, ?_⟩⟩
      rw [Cursor.slice, Cursor.advance_text hc]
    | succ n => exact moved hc rfl (fun ks hks => .close hr hks) h
  case h_4 hend => exact (ht hend).elim
  case h_5 _ hl hr _ =>
    obtain ⟨_, _, ha, h⟩ := bind_ok.1 h
    obtain ⟨c, hc, rfl⟩ := advance_ok.1 ha
    exact moved hc rfl (fun ks hks => .token hl hr ht hks) h

theorem skipNested_atEnd {start n : ℕ} (hw : w.cursor.Faces []) :
    Ensures w (skipNested start n) fun x v =>
      v = w ∧ x = .inr (slice w.cursor.text start w.cursor.text.length) := by
  have hend : w.cursor.current.type = .endOfText := hw.type
  refine .atCurrent ?_
  rw [hend]
  intro x v h
  obtain ⟨c, _, hcursor, h⟩ := bind_ok.1 h
  obtain ⟨rfl, rfl⟩ := cursor_ok.1 hcursor
  obtain ⟨rfl, rfl⟩ := pure_ok.1 h
  exact ⟨rfl, rfl⟩

theorem skipParentheses_argument {l : Token} {argument : String}
    (hl : l.type = .symbol .leftParen) (hw : w.cursor.Faces (l :: ts))
    (hts : ∀ t ∈ ts, t.type ≠ .endOfText) (h : skipParentheses w = .ok argument v) :
    ∃ arg post, ts = arg ++ post ∧ Argument w.cursor.text l.stop arg post argument := by
  rw [skipParentheses_eq] at h
  obtain ⟨b, _, hat, h⟩ := bind_ok.1 h
  obtain ⟨rfl, rfl⟩ := isAt_ok.1 hat
  rw [Cursor.isAt_iff.2 (hw.current ▸ hl), if_pos rfl] at h
  replace h := current_front hw h
  obtain ⟨_, _, ha, h⟩ := bind_ok.1 h
  obtain ⟨c, hc, rfl⟩ := advance_ok.1 ha
  refine repeatFrom_induct (I := fun n v => ∃ before behind, before ++ behind = ts ∧
      v.cursor.Faces behind ∧ v.cursor.text = w.cursor.text ∧
      ∀ ks, Closes n ks → Closes 0 (before ++ ks))
    (Q := fun argument _ => ∃ arg post, ts = arg ++ post ∧
      Argument w.cursor.text l.stop arg post argument) ?_ ?_
    ⟨[], ts, rfl, hw.advance hc, Cursor.advance_text hc, fun _ hks => hks⟩ h
  · rintro n n' v v' ⟨before, behind, rfl, hv, htext, hopen⟩ hstep
    cases behind with
    | nil => cases (skipNested_atEnd hv hstep).2
    | cons t behind =>
      have ht : t.type ≠ .endOfText := hts t (by simp)
      obtain ⟨ha, ⟨-, hx⟩ | ⟨m, hx, hm⟩⟩ := skipNested_run hv ht hstep
      · cases hx
      · obtain rfl := Sum.inl.inj hx
        refine ⟨before ++ [t], behind, by simp, hv.advance ha,
          (Cursor.advance_text ha).trans htext, fun ks hks => ?_⟩
        rw [List.append_assoc]
        exact hopen _ (hm ks hks)
  · rintro n argument v v' ⟨before, behind, rfl, hv, htext, hopen⟩ hstep
    cases behind with
    | nil =>
      obtain rfl := Sum.inr.inj (skipNested_atEnd hv hstep).2
      rw [htext]
      exact ⟨before, [], rfl, .unclosed (not_closes_of_open hopen)⟩
    | cons t behind =>
      have ht : t.type ≠ .endOfText := hts t (by simp)
      obtain ⟨-, ⟨hclosed, hx⟩ | ⟨m, hx, hm⟩⟩ := skipNested_run hv ht hstep
      · obtain rfl := Sum.inr.inj hx
        rw [htext]
        exact ⟨before, t :: behind, rfl, .closed (hopen _ hclosed)⟩
      · cases hx

theorem achieves_argument {l r : Token} {inside more : List Token} (hl : l.type = .symbol .leftParen)
    (hus : Closes 0 (inside ++ [r])) (hts : ∀ t ∈ inside ++ r :: (ts ++ more), t.type ≠ .endOfText)
    (hw : w.cursor.Passes (l :: (inside ++ [r]) ++ ts) more) :
    Achieves w skipParentheses fun argument v => argument = slice w.cursor.text l.stop r.start ∧
      Passed w (placeholderCount (l :: (inside ++ [r]))) (l :: (inside ++ [r])) ts more v := by
  have hfaces : w.cursor.Faces (l :: (inside ++ r :: (ts ++ more))) := by simpa using hw.faces
  apply (Settles.withRun (achieves_skipParentheses hl hus hw)).mono
  rintro argument v ⟨hv, hrun⟩
  refine ⟨?_, hv⟩
  obtain ⟨arg, post, hsplit, hargument⟩ := skipParentheses_argument hl hfaces hts hrun
  cases hargument with
  | @closed post s hclosed =>
    have hsame : (inside ++ [r]) ++ (ts ++ more) = (arg ++ [s]) ++ post := by simpa using hsplit
    obtain ⟨heq, -⟩ := hus.unique hclosed hsame
    obtain ⟨-, hlast⟩ := List.append_inj' heq rfl
    rw [List.singleton_inj.1 hlast]
  | unclosed hnot =>
    refine (hnot (inside ++ [r]) (ts ++ more) ?_ hus).elim
    simpa using hsplit.symm

/-! ## Calls -/

/-- The tokens from the name of an aggregate function on, where the call of the function has these
tokens and this text as its argument. -/
inductive SpellsCall (text : List Char) (function : Aggregate) (arg : List Token)
    (argument : String) : List Token → Prop
  | intro {f l : Token} {post : List Token} :
      f.type.keyword?.bind Aggregate.ofKeyword? = some function → l.type = .symbol .leftParen →
      Argument text l.stop arg post argument →
      SpellsCall text function arg argument (f :: l :: (arg ++ post))

def Called (d : Dialect) (sql : String) (a : Aggregation) : Prop :=
  ∃ before behind arg argument,
    (TokenStream.ofText d sql.toList).tokens = before ++ behind ∧
    SpellsCall sql.toList a.function arg argument behind ∧ a.argument = "(" ++ argument ++ ")"

structure SelectsCalls (d : Dialect) (sql : String) (q : Query) : Prop where
  underived : q.isDerived = false
  called {a : Aggregation} : .aggregation a ∈ q.items → Called d sql a

theorem aggregateHere?_front {w v : Workspace Query} {function : Aggregate}
    (hw : w.cursor.Faces ts)
    (h : (aggregateHere? : Parser Query (Option Aggregate)) w = .ok (some function) v) :
    ∃ f l us, ts = f :: l :: us ∧ f.type.keyword?.bind Aggregate.ofKeyword? = some function ∧
      l.type = .symbol .leftParen := by
  obtain ⟨t, _, ht, h⟩ := bind_ok.1 h
  obtain ⟨rfl, rfl⟩ := current_ok.1 ht
  generalize hf : w.cursor.current.type.keyword?.bind Aggregate.ofKeyword? = name? at h
  cases name? with
  | none => cases (pure_ok.1 h).1
  | some name =>
    obtain ⟨b, _, hb, h⟩ := bind_ok.1 h
    obtain ⟨⟨x, hx, hparen⟩, rfl⟩ := isAhead_ok.1 hb
    cases b with
    | false => cases (pure_ok.1 h).1
    | true =>
      obtain rfl := Option.some.inj (pure_ok.1 h).1
      rw [beq_iff_eq] at hparen
      cases ts with
      | nil => simp [hw.type, TokenType.keyword?] at hf
      | cons f us =>
        rw [hw.peek hx] at hparen
        cases us with
        | nil => simp at hparen
        | cons l us => exact ⟨f, l, us, rfl, hw.current ▸ hf, hparen⟩

theorem aggregationItem_called {w v : Workspace Query} {function : Aggregate} {item : SelectItem}
    {f l : Token} {us ts : List Token} (htext : w.cursor.text = sql.toList)
    (htokens : (TokenStream.ofText d sql.toList).tokens = us ++ f :: l :: ts)
    (hw : w.cursor.Faces (f :: l :: ts))
    (hf : f.type.keyword?.bind Aggregate.ofKeyword? = some function)
    (hl : l.type = .symbol .leftParen) (h : aggregationItem function w = .ok item v) :
    ∃ a, item = .aggregation a ∧ Called d sql a := by
  obtain ⟨_, _, ha, h⟩ := bind_ok.1 h
  obtain ⟨c, hc, rfl⟩ := advance_ok.1 ha
  obtain ⟨argument, _, hargument, h⟩ := bind_ok.1 h
  obtain ⟨c', f', hskip, rfl⟩ := onFindings_ok.1 hargument
  obtain ⟨alias?, _, -, h⟩ := bind_ok.1 h
  obtain ⟨rfl, -⟩ := pure_ok.1 h
  have hend : ∀ t ∈ ts, t.type ≠ .endOfText := by
    intro t ht
    have hmem : t ∈ (TokenStream.ofText d sql.toList).tokens := by
      rw [htokens]
      simp [ht]
    exact TokenStream.scan_type hmem
  obtain ⟨arg, post, rfl, hread⟩ := skipParentheses_argument hl (hw.advance hc) hend hskip
  change Argument c.text l.stop arg post argument at hread
  rw [Cursor.advance_text hc, htext] at hread
  exact ⟨_, rfl, us, _, arg, argument, htokens, .intro hf hl hread, rfl⟩

theorem ownedOperand_star {w v : Workspace Findings} {item : SelectItem}
    (h : ownedOperand rule t w = .ok (some item) v) : item = .star (some (unquoted t.literals)) := by
  have hstar : ∀ {x : Workspace Findings}, (do
      if ← skipSymbol .star then return some (.star (some (unquoted t.literals)))
      else
        Parser.advance
        return none : Parser Findings (Option SelectItem)) x = .ok (some item) v →
      item = .star (some (unquoted t.literals)) := by
    intro x hr
    obtain ⟨b, _, -, h⟩ := bind_ok.1 hr
    cases b with
    | true => exact (Option.some.inj (pure_ok.1 h).1).symm
    | false =>
      obtain ⟨_, _, -, h⟩ := bind_ok.1 h
      cases (pure_ok.1 h).1
  simp only [ownedOperand] at h
  split at h
  · obtain ⟨_, _, -, h⟩ := bind_ok.1 h
    exact hstar h
  · exact hstar h

theorem operandRest_star {w v : Workspace Findings} {item : SelectItem}
    (h : operandRest rule t w = .ok (some item) v) : ∃ owner?, item = .star owner? := by
  obtain ⟨b, _, -, h⟩ := bind_ok.1 h
  cases b with
  | true =>
    obtain ⟨_, _, -, h⟩ := bind_ok.1 h
    cases (pure_ok.1 h).1
  | false =>
    obtain ⟨b, _, -, h⟩ := bind_ok.1 h
    cases b with
    | false => cases (pure_ok.1 h).1
    | true => exact ⟨_, ownedOperand_star h⟩

theorem firstOperand_star {w v : Workspace Findings} {item : SelectItem}
    (h : firstOperand rule w = .ok (some item) v) : ∃ owner?, item = .star owner? := by
  obtain ⟨t, _, ht, h⟩ := bind_ok.1 h
  obtain ⟨b, _, -, h⟩ := bind_ok.1 h
  cases b with
  | true =>
    obtain ⟨_, _, -, h⟩ := bind_ok.1 h
    cases (pure_ok.1 h).1
  | false =>
    obtain ⟨_, _, -, h⟩ := bind_ok.1 h
    exact operandRest_star h

theorem commonItem_not_aggregation {w v : Workspace Findings} {a : Aggregation} :
    commonItem rule w ≠ .ok (.aggregation a) v := by
  intro h
  obtain ⟨t, _, -, h⟩ := bind_ok.1 h
  obtain ⟨item?, _, hfirst, h⟩ := bind_ok.1 h
  cases item? with
  | some item =>
    obtain ⟨owner?, rfl⟩ := firstOperand_star hfirst
    cases (pure_ok.1 h).1
  | none =>
    obtain ⟨_, _, -, h⟩ := bind_ok.1 h
    obtain ⟨_, _, -, h⟩ := bind_ok.1 h
    obtain ⟨_, _, -, h⟩ := bind_ok.1 h
    cases (pure_ok.1 h).1

theorem skipIf_reaches {w v : Workspace Query} {xs : List TokenType} {b : Bool}
    (h : skipIf xs w = .ok b v) : w.cursor.Reaches v.cursor := by
  obtain ⟨-, h⟩ := skipIf_ok.1 h
  cases b with
  | true =>
    obtain ⟨c, hc, rfl⟩ := h
    exact .single hc
  | false =>
    obtain rfl := h
    exact .refl _

theorem selectItem_called {w v : Workspace Query} {a : Aggregation} (hw : Arrived d sql w.cursor)
    (h : selectItem rule w = .ok (.aggregation a) v) : Called d sql a := by
  obtain ⟨g, _, hg, h⟩ := bind_ok.1 h
  obtain ⟨-, rfl⟩ := grammar_ok.1 hg
  obtain ⟨_, w₁, hbefore, h⟩ := bind_ok.1 h
  obtain ⟨b, w₂, hstar, h⟩ := bind_ok.1 h
  have hw₂ : Arrived d sql w₂.cursor :=
    hw.reaches ((skipIf_reaches hbefore).trans (skipIf_reaches hstar))
  cases b with
  | true =>
    obtain ⟨_, _, -, h⟩ := bind_ok.1 h
    cases (pure_ok.1 h).1
  | false =>
    obtain ⟨function?, w₃, hhere, h⟩ := bind_ok.1 h
    obtain ⟨rfl, -⟩ := aggregateHere?_ok hhere
    cases function? with
    | none =>
      obtain ⟨_, _, hcommon, -⟩ := onFindings_ok.1 h
      exact (commonItem_not_aggregation hcommon).elim
    | some function =>
      obtain ⟨us, ts, htokens, hfaces⟩ := hw₂.faces
      obtain ⟨f, l, ts, rfl, hf, hl⟩ := aggregateHere?_front hfaces hhere
      obtain ⟨b, hb, hcalled⟩ :=
        aggregationItem_called hw₂.text htokens hfaces hf hl h
      cases hb
      exact hcalled

/-! ## Queries -/

structure KeepsSelection (w v : Workspace Query) : Prop where
  found : Progress (Names fun _ _ => True) True True w.found v.found
  items : v.draft.items = w.draft.items
  derived : v.draft.isDerived = w.draft.isDerived

instance : Course (Names fun _ _ => True) True True KeepsSelection where
  trans h₁ h₂ := ⟨h₁.found.trans h₂.found, h₂.items.trans h₁.items, h₂.derived.trans h₁.derived⟩
  lift h := ⟨h, rfl, rfl⟩

theorem KeepsSelection.of_eq {w : Workspace Query} {q : Query} (hf : q.findings = w.draft.findings)
    (hi : q.items = w.draft.items) (hd : q.isDerived = w.draft.isDerived) :
    KeepsSelection w ⟨w.cursor, q⟩ :=
  ⟨.of_findings hf, hi, hd⟩

instance : QueryCourse KeepsSelection where
  item rule := .onFindings (follows_commonItem rule)
  change hf hi _ _ _ hd := .of_eq hf hi hd

instance : SortingCourse KeepsSelection where
  keys _ _ := .of_eq rfl rfl rfl

instance : TailCourse KeepsSelection where
  setLimit limit? w u v h := by
    obtain rfl := modifyDraft_ok.1 h
    exact .of_eq rfl rfl rfl
  top := .onFindings (follows_topValue limitValue_progress)
  limits comma := .onFindings (follows_limitAndOffset limitValue_progress comma)

structure Selecting (d : Dialect) (sql : String) (w : Workspace Query) : Prop where
  arrived : Arrived d sql w.cursor
  selects : SelectsCalls d sql w.draft

theorem SelectsCalls.keeps {q r : Query} (h : SelectsCalls d sql q) (hi : r.items = q.items)
    (hd : r.isDerived = q.isDerived) : SelectsCalls d sql r :=
  ⟨hd.trans h.underived, fun ha => h.called (hi ▸ ha)⟩

theorem Selecting.keeps {w v : Workspace Query} (h : Selecting d sql w) (hv : KeepsSelection w v) :
    Selecting d sql v :=
  ⟨h.arrived.reaches hv.found.reaches, h.selects.keeps hv.items hv.derived⟩

theorem selectList_selecting {w v : Workspace Query} {u : Unit} (hw : Selecting d sql w)
    (h : selectList rule w = .ok u v) : Selecting d sql v := by
  -- By induction on the items: each of them is added as it is read.
  obtain ⟨_, w₁, hlist, h⟩ := bind_ok.1 h
  obtain ⟨items, hlist⟩ := discard_ok.1 hlist
  obtain ⟨t, _, ht, h⟩ := bind_ok.1 h
  obtain ⟨-, rfl⟩ := current_ok.1 ht
  obtain rfl := modifyDraft_ok.1 h
  have hread : Selecting d sql w₁ := by
    refine (separated_induct (I := fun _ => Selecting d sql) (M := fun _ => Selecting d sql)
      ?_ ?_ hw hlist).1
    · intro _ _ x y hx hround
      obtain ⟨item, y₁, hitem, hadd⟩ := bind_ok.1 hround
      obtain rfl := modifyDraft_ok.1 hadd
      have hy := hx.keeps (follows_selectItem rule hitem)
      refine ⟨hy.arrived, hy.selects.underived, fun ha => ?_⟩
      rcases List.mem_append.1 ha with ha | ha
      · exact hy.selects.called ha
      · obtain rfl := List.mem_singleton.1 ha
        exact selectItem_called hx.arrived hitem
    · intro _ x c hx _ hc
      exact ⟨hx.arrived.reaches (.single hc), hx.selects⟩
  exact ⟨hread.arrived, hread.selects.keeps rfl rfl⟩

theorem queryHead_selecting {w v : Workspace Query} {u : Unit} (hw : Selecting d sql w)
    (hq : w.cursor.current.type ≠ .symbol .question) (h : queryHead rule w = .ok u v) :
    Selecting d sql v := by
  have hbefore : FollowsAt KeepsSelection w (do
      Parser.advance
      distinctClause
      skipAll (keywordTypes (← grammar).selectOptions)
      topClause) := by
    refine (FollowsAt.advance hq).bind fun _ => follows_distinctClause.bind fun _ => ?_
    exact follows_grammar.bind fun g => (follows_skipAll _).bind fun _ => follows_topClause
  have hsplit : queryHead rule = (do
      (do
        Parser.advance
        distinctClause
        skipAll (keywordTypes (← grammar).selectOptions)
        topClause)
      selectList rule
      refuseIf [.keyword .INTO]) := by
    simp only [queryHead, bind_assoc]
  rw [hsplit] at h
  obtain ⟨_, w₁, hopening, h⟩ := bind_ok.1 h
  obtain ⟨_, w₂, hlist, h⟩ := bind_ok.1 h
  obtain ⟨-, rfl⟩ := refuseIf_ok.1 h
  exact selectList_selecting (hw.keeps (hbefore hopening)) hlist

theorem selectsCalls_invariant : LevelInvariant d rule sql (SelectsCalls d sql) where
  start _ := ⟨rfl, fun ha => by simp at ha⟩
  findings hq := hq.keeps rfl rfl
  head ha hw hq h := (queryHead_selecting ⟨ha, hw⟩ hq h).selects
  tail _ hw h := hw.keeps (follows_queryTail (R := KeepsSelection) h).items
    (follows_queryTail (R := KeepsSelection) h).derived

/-! ## Merged statements -/

theorem SelectsCalls.absorb {q r : Query} (hq : SelectsCalls d sql q) (hr : SelectsCalls d sql r) :
    SelectsCalls d sql (q.absorb r) := by
  refine ⟨hr.underived, fun {a} ha => ?_⟩
  simp only [Query.absorb] at ha
  split at ha
  · exact hr.called ha
  · exact hq.called ha

theorem select_derived {s : SelectStatement} (h : parse d rule catalog sql = .ok (.select s)) :
    ∃ q, SelectsCalls d sql q ∧ s.query.items = (q.derive catalog).items ∧
      ∀ e, e ∈ (q.derive catalog).findings.edits → e ∈ s.query.findings.edits := by
  obtain ⟨q, hq, hs⟩ := selectsCalls_invariant.select SelectsCalls.absorb h
  rw [hs]
  exact ⟨q, hq, rfl, fun e he => List.mem_mergeSort.2 he⟩

end SqlFront

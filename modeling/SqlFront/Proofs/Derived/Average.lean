import SqlFront.Proofs.Derived.Call
import SqlFront.Proofs.Derived.Staging

/-!
# The averages of a statement

Every average of an accepted SELECT is a call of its text, and two texts are staged for it at the
end of the select list: the count and the sum of its argument. They are the calls that they are
meant to be exactly when the argument reads without its spaces as it stands.
-/

set_option autoImplicit false

namespace SqlFront

open Derived

variable {d : Dialect} {rule : ShardingRule} {catalog : Catalog} {sql : String}
  {before after items : List SelectItem} {a : Aggregation} {q : Query} {n : ℕ}

/-! ## Staging -/

def SelectItem.call? : SelectItem → Option (Aggregate × String)
  | .aggregation a => some (a.function, a.argument)
  | _ => none

theorem SelectItem.call?_eq_some {item : SelectItem} {function : Aggregate} {argument : String} :
    item.call? = some (function, argument) ↔
      ∃ a, item = .aggregation a ∧ a.function = function ∧ a.argument = argument := by
  cases item <;> simp [SelectItem.call?]

def averageCount (items : List SelectItem) : ℕ :=
  items.countP fun item => item.call?.any fun call => call.1 = .avg

theorem averageCount_cons (item : SelectItem) : averageCount (item :: items) =
    (if item.call?.any (fun call => call.1 = .avg) then 1 else 0) + averageCount items := by
  unfold averageCount
  rw [List.countP_cons, Nat.add_comm]

theorem averages_average (h : a.function = .avg) : averages n (.aggregation a :: items) =
    (.aggregation (average n a).1 :: (averages (n + 1) items).1,
      (average n a).2 ++ (averages (n + 1) items).2) := by
  rw [averages, if_pos h]

theorem averages_other {item : SelectItem} (h : ¬item.call?.any (fun call => call.1 = .avg)) :
    averages n (item :: items) = (item :: (averages n items).1, (averages n items).2) := by
  cases item with
  | star | common => rfl
  | aggregation a =>
    have ha : a.function ≠ .avg := by simpa [SelectItem.call?] using h
    rw [averages, if_neg ha]

theorem averages_staged (h : (averages n items).1 = before ++ .aggregation a :: after)
    (ha : a.function = .avg) : ∃ b, .aggregation b ∈ items ∧ b.function = .avg ∧
      b.argument = a.argument ∧
      (averages n items).2[2 * averageCount before]? =
        some (averagePart a .count (aliasOf .averageCount (n + averageCount before))).2 ∧
      (averages n items).2[2 * averageCount before + 1]? =
        some (averagePart a .sum (aliasOf .averageSum (n + averageCount before))).2 := by
  -- By induction on the items. The average behind `k` others has the texts with the numbers `2k`
  -- and `2k + 1`.
  induction items generalizing n before with
  | nil => simp [averages] at h
  | cons item items ih =>
    by_cases havg : item.call?.any fun call => call.1 = .avg
    · obtain ⟨b, rfl, hb⟩ : ∃ b, item = .aggregation b ∧ b.function = .avg := by
        cases item with
        | star | common => simp [SelectItem.call?] at havg
        | aggregation b => exact ⟨b, rfl, by simpa [SelectItem.call?] using havg⟩
      rw [averages_average hb] at h ⊢
      cases before with
      | nil =>
        obtain ⟨hfirst, -⟩ := List.cons.inj h
        obtain rfl := SelectItem.aggregation.inj hfirst
        exact ⟨b, List.mem_cons_self, hb, rfl, rfl, rfl⟩
      | cons x before =>
        obtain ⟨rfl, hrest⟩ := List.cons.inj h
        obtain ⟨b', hmem, hb', hargument, hcount, hsum⟩ := ih hrest
        have hbefore : averageCount (.aggregation (average n b).1 :: before) =
            1 + averageCount before := by
          have hstays : (SelectItem.aggregation (average n b).1).call?.any
              (fun call => call.1 = .avg) = true := by
            simp [SelectItem.call?, average, averagePart, hb]
          rw [averageCount_cons, if_pos hstays]
        have hbehind : ∀ i, ((average n b).2 ++ (averages (n + 1) items).2)[2 + i]? =
            (averages (n + 1) items).2[i]? := by
          intro i
          rw [List.getElem?_append_right (Nat.le_add_right 2 i)]
          exact congrArg _ (Nat.add_sub_cancel_left 2 i)
        rw [hbefore, Nat.mul_add, Nat.mul_one, Nat.add_assoc 2, hbehind, hbehind,
          ← Nat.add_assoc n]
        exact ⟨b', List.mem_cons_of_mem _ hmem, hb', hargument, hcount, hsum⟩
    · rw [averages_other havg] at h ⊢
      cases before with
      | nil =>
        obtain ⟨rfl, -⟩ := List.cons.inj h
        simp [SelectItem.call?, ha] at havg
      | cons x before =>
        obtain ⟨rfl, hrest⟩ := List.cons.inj h
        obtain ⟨b, hmem, hb⟩ := ih hrest
        rw [averageCount_cons, if_neg havg, Nat.zero_add]
        exact ⟨b, List.mem_cons_of_mem _ hmem, hb⟩

theorem orderAsGrouped_items (q : Query) : q.orderAsGrouped.items = q.items := by
  unfold Query.orderAsGrouped
  split <;> rfl

theorem mem_orderAsGrouped {e : Edit} (he : e ∈ q.findings.edits) :
    e ∈ q.orderAsGrouped.findings.edits := by
  unfold Query.orderAsGrouped
  split
  · exact he
  · exact List.mem_append_left _ he

theorem derive_items (h : q.isDerived = false) :
    (q.derive catalog).items = (averages 0 q.items).1 := by
  unfold Query.derive
  rw [if_neg (by simp [h])]
  dsimp only
  rw [orderAsGrouped_items]
  split <;> rfl

theorem derive_staged (h : q.isDerived = false) (hne : (averages 0 q.items).2 ≠ []) :
    ∃ more, .items q.selectListStop ((averages 0 q.items).2 ++ more) false ∈
      (q.derive catalog).findings.edits := by
  unfold Query.derive
  rw [if_neg (by simp [h])]
  dsimp only
  rw [List.append_assoc]
  generalize covers catalog q.findings.tables (averages 0 q.items).1 = covered
  refine ⟨(sortKeys .orderBy covered 0 q.orderBy).2 ++ (sortKeys .groupBy covered 0 q.groupBy).2,
    mem_orderAsGrouped ?_⟩
  rw [if_neg (by simp [hne])]
  exact List.mem_append_right _ (List.mem_singleton.2 rfl)

/-! ## Statements -/

/-- What an average selects: a call of the text, and the two texts that are staged for it. -/
theorem average_staged {s : SelectStatement} (h : parse d rule catalog sql = .ok (.select s))
    (hitems : s.query.items = before ++ .aggregation a :: after) (ha : a.function = .avg) :
    ∃ behind us arg argument stop texts,
      (TokenStream.ofText d sql.toList).tokens = us ++ behind ∧
      SpellsCall sql.toList .avg arg argument behind ∧ a.argument = "(" ++ argument ++ ")" ∧
      .items stop texts false ∈ s.query.findings.edits ∧
      texts[2 * averageCount before]? =
        some (partText .count argument (aliasOf .averageCount (averageCount before))) ∧
      texts[2 * averageCount before + 1]? =
        some (partText .sum argument (aliasOf .averageSum (averageCount before))) := by
  obtain ⟨q, hq, hderived, hedits⟩ := select_derived h
  rw [hderived, derive_items hq.underived] at hitems
  obtain ⟨b, hmem, hb, hargument, hcount, hsum⟩ := averages_staged hitems ha
  rw [Nat.zero_add] at hcount hsum
  have hne : (averages 0 q.items).2 ≠ [] := by
    intro hnil
    simp [hnil] at hcount
  obtain ⟨more, hstaged⟩ := derive_staged hq.underived hne
  obtain ⟨us, behind, arg, argument, htokens, hcall, hb'⟩ := hq.called hmem
  rw [hb] at hcall
  rw [hargument] at hb'
  have hpart : ∀ function alias_, (averagePart a function alias_).2 =
      partText function argument alias_ := by
    intro function alias_
    simp only [averagePart, partText, hb']
  rw [hpart] at hcount hsum
  have hin : ∀ {i : ℕ} {x : String}, (averages 0 q.items).2[i]? = some x →
      ((averages 0 q.items).2 ++ more)[i]? = some x := by
    intro i x hx
    rw [List.getElem?_append_left (List.getElem?_eq_some_iff.1 hx).1, hx]
  exact ⟨behind, us, arg, argument, _, _, htokens, hcall, hb', hedits _ hstaged, hin hcount,
    hin hsum⟩

/-- Both texts that are staged for an average are the calls of its argument exactly if the argument
reads without its spaces as it stands, alone and in front of its closing parenthesis. -/
theorem average_texts_iff {s : SelectStatement} (h : parse d rule catalog sql = .ok (.select s))
    (hitems : s.query.items = before ++ .aggregation a :: after) (ha : a.function = .avg) :
    ∃ behind us arg argument stop texts count sum,
      (TokenStream.ofText d sql.toList).tokens = us ++ behind ∧
      SpellsCall sql.toList .avg arg argument behind ∧ a.argument = "(" ++ argument ++ ")" ∧
      .items stop texts false ∈ s.query.findings.edits ∧
      texts[2 * averageCount before]? = some count ∧
      texts[2 * averageCount before + 1]? = some sum ∧
      ((HasWords d count.toList (callWords .COUNT (arg.map Token.word)
          (aliasOf .averageCount (averageCount before))) ∧
        HasWords d sum.toList (callWords .SUM (arg.map Token.word)
          (aliasOf .averageSum (averageCount before)))) ↔
        HasWords d (withoutSpaces argument).toList (arg.map Token.word) ∧
          HasWords d ((withoutSpaces argument).toList ++ [')'])
            (arg.map Token.word ++ [(.symbol .rightParen, ")")])) := by
  obtain ⟨behind, us, arg, argument, stop, texts, htokens, hcall, hargument, hedit, hcount, hsum⟩ :=
    average_staged h hitems ha
  exact ⟨behind, us, arg, argument, stop, texts, _, _, htokens, hcall, hargument, hedit, hcount,
    hsum, partTexts_iff d argument (averageCount before) (arg.map Token.word)⟩

def Statement.calls : Statement → List (Option (Aggregate × String))
  | .select s => s.query.items.map SelectItem.call?
  | _ => []

/-- The second average of a list, with a call in its argument. -/
theorem average_texts_iff_second : ∃ s before after a,
    parse .mysql ⟨[], none⟩ ⟨[]⟩ "SELECT o.id, AVG(price), AVG(IFNULL(o.qty,0)) p FROM t_order o" =
      .ok (.select s) ∧
    s.query.items = before ++ .aggregation a :: after ∧ a.function = .avg ∧
    averageCount before = 1 ∧ a.argument = "(IFNULL(o.qty,0))" ∧
    ∃ behind us arg argument stop texts count sum,
      (TokenStream.ofText .mysql
        "SELECT o.id, AVG(price), AVG(IFNULL(o.qty,0)) p FROM t_order o".toList).tokens =
          us ++ behind ∧
      SpellsCall "SELECT o.id, AVG(price), AVG(IFNULL(o.qty,0)) p FROM t_order o".toList .avg arg
        argument behind ∧ a.argument = "(" ++ argument ++ ")" ∧
      .items stop texts false ∈ s.query.findings.edits ∧
      texts[2 * averageCount before]? = some count ∧
      texts[2 * averageCount before + 1]? = some sum ∧
      ((HasWords .mysql count.toList (callWords .COUNT (arg.map Token.word)
          (aliasOf .averageCount (averageCount before))) ∧
        HasWords .mysql sum.toList (callWords .SUM (arg.map Token.word)
          (aliasOf .averageSum (averageCount before)))) ↔
        HasWords .mysql (withoutSpaces argument).toList (arg.map Token.word) ∧
          HasWords .mysql ((withoutSpaces argument).toList ++ [')'])
            (arg.map Token.word ++ [(.symbol .rightParen, ")")])) := by
  obtain ⟨s, hp, hcalls⟩ := parse_of_view .mysql ⟨[], none⟩ ⟨[]⟩
    "SELECT o.id, AVG(price), AVG(IFNULL(o.qty,0)) p FROM t_order o" Statement.calls
    [none, some (.avg, "(price)"), some (.avg, "(IFNULL(o.qty,0))")] (by decide +kernel)
  cases s <;> simp only [Statement.calls, List.nil_eq, reduceCtorEq] at hcalls
  case select s =>
    simp only [List.map_eq_cons_iff, List.map_eq_nil_iff] at hcalls
    obtain ⟨first, _, hitems, hfirst, second, _, rfl, hsecond, third, _, rfl, hthird, rfl⟩ := hcalls
    obtain ⟨a, rfl, hfunction, hargument⟩ := SelectItem.call?_eq_some.1 hthird
    have hcount : averageCount [first, second] = 1 := by
      simp [averageCount, hfirst, hsecond]
    exact ⟨s, [first, second], [], a, hp, hitems, hfunction, hcount, hargument,
      average_texts_iff hp hitems hfunction⟩

/-- Without its space the argument `DISTINCT price` is one word. -/
theorem distinct_average_misspelled : ∃ s a arg behind stop texts count sum,
    parse .mysql ⟨[], none⟩ ⟨[]⟩ "SELECT AVG(DISTINCT price) FROM t_order" = .ok (.select s) ∧
    s.query.items = [.aggregation a] ∧ a.function = .avg ∧
    (TokenStream.ofText .mysql "SELECT AVG(DISTINCT price) FROM t_order".toList).tokens =
      ⟨.keyword .SELECT, "SELECT", 0, 6⟩ :: behind ∧
    SpellsCall "SELECT AVG(DISTINCT price) FROM t_order".toList .avg arg "DISTINCT price" behind ∧
    .items stop texts false ∈ s.query.findings.edits ∧
    texts[0]? = some count ∧ texts[1]? = some sum ∧
    ¬(HasWords .mysql count.toList (callWords .COUNT (arg.map Token.word)
        (aliasOf .averageCount 0)) ∧
      HasWords .mysql sum.toList (callWords .SUM (arg.map Token.word) (aliasOf .averageSum 0))) := by
  obtain ⟨s, hp, hcalls⟩ := parse_of_view .mysql ⟨[], none⟩ ⟨[]⟩
    "SELECT AVG(DISTINCT price) FROM t_order" Statement.calls [some (.avg, "(DISTINCT price)")]
    (by decide +kernel)
  cases s <;> simp only [Statement.calls, List.nil_eq, reduceCtorEq] at hcalls
  case select s =>
    simp only [List.map_eq_cons_iff, List.map_eq_nil_iff] at hcalls
    obtain ⟨item, _, hitems, hitem, rfl⟩ := hcalls
    obtain ⟨a, rfl, ha, hargument⟩ := SelectItem.call?_eq_some.1 hitem
    obtain ⟨_, _, _, argument, stop, texts, -, -, htext, hedit, hcount, hsum⟩ :=
      average_staged hp (show s.query.items = [] ++ .aggregation a :: [] from hitems) ha
    obtain rfl : argument = "DISTINCT price" := by
      rw [hargument] at htext
      have hlist := congrArg String.toList htext
      have hbehind : argument.toList ++ [')'] = "DISTINCT price".toList ++ [')'] := by
        simpa using hlist.symm
      exact String.toList_inj.1 (List.append_cancel_right hbehind)
    have hclosed : Closes 0 ([⟨.keyword .DISTINCT, "DISTINCT", 11, 19⟩,
        ⟨.literal .identifier, "price", 20, 25⟩] ++ [⟨.symbol .rightParen, ")", 25, 26⟩]) :=
      .token (by decide) (by decide) (by decide) (.token (by decide) (by decide) (by decide)
        (.last rfl))
    have hslice : slice "SELECT AVG(DISTINCT price) FROM t_order".toList 11 25 =
        "DISTINCT price" := by
      decide +kernel
    have hread : Argument "SELECT AVG(DISTINCT price) FROM t_order".toList 11
        [⟨.keyword .DISTINCT, "DISTINCT", 11, 19⟩, ⟨.literal .identifier, "price", 20, 25⟩]
        [⟨.symbol .rightParen, ")", 25, 26⟩, ⟨.keyword .FROM, "FROM", 27, 31⟩,
          ⟨.literal .identifier, "t_order", 32, 39⟩] "DISTINCT price" := by
      rw [← hslice]
      exact .closed hclosed
    have hcall := SpellsCall.intro (f := ⟨.keyword .AVG, "AVG", 7, 10⟩)
      (l := ⟨.symbol .leftParen, "(", 10, 11⟩) rfl rfl hread
    have hword : ¬HasWords .mysql (withoutSpaces "DISTINCT price").toList
        [(.keyword .DISTINCT, "DISTINCT"), (.literal .identifier, "price")] := by
      intro h
      have htokens : (TokenStream.ofText .mysql (withoutSpaces "DISTINCT price").toList).tokens.map
          Token.word = [(.keyword .DISTINCT, "DISTINCT"), (.literal .identifier, "price")] :=
        ((TokenStream.scan_spells (Nat.le_refl _)).1 (hasWords_iff.1 h)).1
      exact absurd htokens (by decide +kernel)
    refine ⟨s, a, _, _, stop, texts, _, _, hp, hitems, ha, by decide +kernel, hcall, hedit, hcount,
      hsum, fun h => hword ?_⟩
    exact ((partTexts_iff .mysql "DISTINCT price" 0 _).1 h).1

end SqlFront

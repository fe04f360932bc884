import SqlFront.Proofs.Progress.Query
import SqlFront.Proofs.Selection.Item

/-!
# Select lists

The items of a list are read one by one. A list whose items are all read to their ends is read to
its end; the reading of another list ends inside of its first item that is not.
-/

set_option autoImplicit false

namespace SqlFront

open SqlFront.Parser SqlFront.Clause SqlFront.Reading

variable {d : Dialect} {rule : ShardingRule} {w v : Workspace Query} {t f l : Token}
  {us vs ts more : List Token} {ps : List Part}

/-! ## Items -/

inductive WrittenItem
  | parts (ps : List Part)
  | group (l : Token) (inside : List Part) (r : Token) (behind : List Part)

namespace WrittenItem

inductive Spells (d : Dialect) : WrittenItem → List Token → Prop
  | parts {ps : List Part} : ps ≠ [] → Formed ps → Finished ps ∨ IsStar ps →
      ps.head?.any Part.isGroup = false →
      frontType (tokensOf ps) ∉ keywordTypes d.grammar.beforeSelectItem →
      Spells d (.parts ps) (tokensOf ps)
  | group {l r : Token} {inside behind : List Part} : l.type = .symbol .leftParen →
      Formed inside → Finished inside → frontType (tokensOf inside) ≠ .symbol .dot →
      r.type = .symbol .rightParen → Formed behind →
      Spells d (.group l inside r behind) (l :: (tokensOf inside ++ r :: tokensOf behind))

def IsWhole : WrittenItem → Prop
  | parts ps => WholeItem ps
  | group _ _ _ _ => False

end WrittenItem

variable {item : WrittenItem} {items : List WrittenItem}

def WholeList (items : List WrittenItem) : Prop := ∀ item ∈ items, item.IsWhole

structure SelectionRead (w : Workspace Query) (whole : Prop) (us more : List Token)
    (v : Workspace Query) : Prop where
  collects : Collects w.found 0 [] v.found
  place : ComesTo whole us more v.cursor

def Token.aggregate? (t : Token) : Option Aggregate := t.type.keyword?.bind Aggregate.ofKeyword?

theorem achieves_aggregateHere {σ : Type} {w : Workspace σ} (hw : w.cursor.Passes (t :: ts) more) :
    Achieves w (aggregateHere? : Parser σ (Option Aggregate)) fun a v => v = w ∧
      (a.isSome ↔ t.isAggregate = true ∧ frontType (ts ++ more) = .symbol .leftParen) ∧
      ∀ function ∈ a, t.aggregate? = some function := by
  unfold aggregateHere? Token.isAggregate Token.aggregate?
  apply settles_current.2
  rw [hw.current]
  cases t.type.keyword?.bind Aggregate.ofKeyword? with
  | none => exact Settles.pure ⟨rfl, by simp⟩
  | some function =>
    apply (achieves_isAhead hw).bind
    rintro b v ⟨rfl, rfl⟩
    by_cases hparen : frontType (ts ++ more) = .symbol .leftParen
    · rw [hparen, beq_self_eq_true, if_pos rfl]
      exact Settles.pure ⟨rfl, by simp⟩
    · rw [beq_eq_false_iff_ne.2 hparen, if_neg (by simp)]
      exact Settles.pure ⟨rfl, by simp [hparen]⟩

theorem achieves_aggregationItem {function : Aggregate} (h : Formed (.word f :: .group l vs :: ps))
    (hf : f.isAggregate = true) (halias : frontType (us ++ more) ∉ aliasStarts)
    (hw : w.cursor.Passes (tokensOf (.word f :: .group l vs :: ps) ++ us) more) :
    Achieves w (aggregationItem function) fun _ v =>
      SelectionRead w (WholeItem (.word f :: .group l vs :: ps)) us more v := by
  unfold aggregationItem
  apply (achieves_advance hw).bind
  intro _ v hv
  have hclosed : Achieves v (onFindings skipParentheses) fun _ (x : Workspace Query) =>
      ReadPast v.found ps us more x.found :=
    settles_onFindings.2 (achieves_closed h.tail hv.passes)
  apply hclosed.bind
  rintro _ x ⟨hx, hread⟩
  have hend : x.cursor.Passes (tokensOf ps ++ us) more := hx
  apply (achieves_itemAlias h.tail.tail halias hend).bind
  rintro _ y ⟨hy, hplace⟩
  have hfound : v.found.draft = w.found.draft := congrArg findings hv.draft
  have hfound' : y.found.draft = x.found.draft := congrArg findings hy
  rw [← whole_aggregate_iff hf] at hplace
  refine Settles.pure ⟨?_, hplace⟩
  exact (Collects.of_eq hfound).trans (hread.congr hfound'.symm)

def plainItem (rule : ShardingRule) : Parser Query SelectItem := do
  match ← aggregateHere? with
  | some function => aggregationItem function
  | none => onFindings (commonItem rule)

theorem achieves_plainItem (h : Formed ps) (hf : Finished ps ∨ IsStar ps) (hne : ps ≠ [])
    (hg : ps.head?.any Part.isGroup = false) (hstar : frontType (tokensOf ps) ≠ .symbol .star)
    (hus : endsOperand (us ++ more) = true) (halias : frontType (us ++ more) ∉ aliasStarts)
    (hw : w.cursor.Passes (tokensOf ps ++ us) more) :
    Achieves w (plainItem rule) fun _ v => SelectionRead w (WholeItem ps) us more v := by
  unfold plainItem
  by_cases hcall : ∃ f l vs qs, ps = .word f :: .group l vs :: qs ∧ f.isAggregate = true
  · obtain ⟨f, l, vs, qs, rfl, haggregate⟩ := hcall
    have hp : w.cursor.Passes (f :: (l :: (vs ++ (tokensOf qs ++ us)))) more := by simpa using hw
    apply (achieves_aggregateHere hp).bind
    rintro a v ⟨rfl, ha, -⟩
    obtain ⟨function, rfl⟩ := Option.isSome_iff_exists.1 (ha.2 ⟨haggregate, h.tail.group.1⟩)
    exact achieves_aggregationItem h haggregate halias hw
  · have hother : ∀ t qs, ps = .word t :: qs → t.isAggregate = true →
        qs.head?.any Part.isGroup = false := by
      rintro t qs rfl haggregate
      by_contra hgroup
      obtain ⟨l, vs, qs, rfl⟩ := exists_group hgroup
      exact hcall ⟨t, l, vs, qs, rfl, haggregate⟩
    have hnone : Achieves w (aggregateHere? : Parser Query (Option Aggregate)) fun a v =>
        a = none ∧ v = w := by
      obtain ⟨p, ps, rfl⟩ := List.exists_cons_of_ne_nil hne
      cases p with
      | group l vs => simp [Part.isGroup] at hg
      | choice c vs =>
        apply (achieves_aggregateHere hw).mono
        rintro a v ⟨hv, ha, -⟩
        simp only [Token.isAggregate, h.choice.1, TokenType.keyword?, Option.bind_some,
          Aggregate.ofKeyword?, Option.isSome_none, Bool.false_eq_true, false_and, iff_false] at ha
        exact ⟨by simpa using ha, hv⟩
      | word t =>
        have hp : w.cursor.Passes (t :: (tokensOf ps ++ us)) more := hw
        apply (achieves_aggregateHere hp).mono
        rintro a v ⟨hv, ha, -⟩
        refine ⟨?_, hv⟩
        rw [← Option.not_isSome_iff_eq_none, ha, List.append_assoc]
        rintro ⟨haggregate, hparen⟩
        exact h.tail.not_paren (hother t ps rfl haggregate) (not_leftParen hus) hparen
    apply hnone.bind
    rintro _ v ⟨rfl, rfl⟩
    have hitem : Achieves v.found (commonItem rule) _ :=
      achieves_expressionItem h hf hne hg hstar hother hus halias hw
    exact settles_onFindings.2 (hitem.mono fun _ x hx => ⟨hx.1, hx.2⟩)

theorem achieves_selectItem (hs : item.Spells w.cursor.dialect ts)
    (hus : endsOperand (us ++ more) = true) (halias : frontType (us ++ more) ∉ aliasStarts)
    (hw : w.cursor.Passes (ts ++ us) more) :
    Achieves w (selectItem rule) fun _ v => SelectionRead w item.IsWhole us more v := by
  unfold selectItem
  apply settles_grammar.2
  cases hs with
  | @parts ps hne h hf hg hbefore =>
    have hfront : frontType (tokensOf ps ++ us ++ more) = frontType (tokensOf ps) := by
      rw [List.append_assoc, frontType_append fun hnil => hne (tokensOf_eq_nil hnil)]
    apply settles_noSkip hw (hfront ▸ hbefore)
    by_cases hstar : frontType (tokensOf ps) = .symbol .star
    · obtain ⟨s, ps, rfl, hs⟩ : ∃ s qs, ps = .word s :: qs ∧ s.type = .symbol .star := by
        have hfirst : frontType (tokensOf ps ++ []) ∈ [TokenType.symbol .star] := by simp [hstar]
        obtain ⟨s, qs, rfl, hs⟩ := h.front_word hfirst (by simp) (by decide) (by decide)
        exact ⟨s, qs, rfl, List.mem_singleton.1 hs⟩
      apply settles_skipIf hw (by simp [hs])
      intro v hv
      rw [if_pos rfl]
      apply settles_modifyDraft.2
      have hfound : v.found.draft = w.found.draft := congrArg findings hv.draft
      exact Settles.pure ⟨.of_eq hfound, comesTo_of_left h.tail (whole_star_iff hs) hv.passes⟩
    · apply settles_noSkip hw (by rw [hfront]; simpa using hstar)
      rw [if_neg (by simp)]
      exact achieves_plainItem h hf hne hg hstar hus halias hw
  | @group l r inside behind hl h hf hdot hr hbehind =>
    have hbefore : TokenType.symbol .leftParen ∉
        keywordTypes w.cursor.dialect.grammar.beforeSelectItem := by simp [keywordTypes]
    apply settles_noSkip hw (by simpa [hl] using hbefore)
    apply settles_noSkip hw (by simp [hl])
    rw [if_neg (by simp)]
    apply (achieves_aggregateHere hw).bind
    rintro a v ⟨rfl, ha, -⟩
    cases a with
    | some function => simp [Token.isAggregate, hl, TokenType.keyword?] at ha
    | none =>
      have hp : v.cursor.Passes (l :: (tokensOf inside ++ r :: (tokensOf behind ++ us))) more := by
        simpa using hw
      have hitem : Achieves v.found (commonItem rule) _ := achieves_groupItem hl h hf hdot hr hp
      exact settles_onFindings.2 (hitem.mono fun _ x hx => ⟨hx.1, Or.inr ⟨id, hx.2⟩⟩)

/-! ## The list -/

theorem settles_modified {σ : Type} {w : Workspace σ} {g : σ → σ} {Q : Unit → Workspace σ → Prop}
    {F : Fault → Prop} (h : Q () ⟨w.cursor, g w.draft⟩) : Settles w (modifyDraft g) Q F := h

def addItem (rule : ShardingRule) : Parser Query Unit := do
  let item ← selectItem rule
  modifyDraft fun q => { q with items := q.items ++ [item] }

theorem selectList_eq : selectList rule = (do
    discard <| commaSeparated (addItem rule)
    let stop := (← current).start
    modifyDraft fun q => { q with selectListStop := stop }) := rfl

theorem achieves_addItem (hs : item.Spells w.cursor.dialect ts)
    (hus : endsOperand (us ++ more) = true) (halias : frontType (us ++ more) ∉ aliasStarts)
    (hw : w.cursor.Passes (ts ++ us) more) :
    Achieves w (addItem rule) fun _ v => SelectionRead w item.IsWhole us more v ∧
      v.cursor.dialect = w.cursor.dialect := by
  unfold addItem
  have hitem : Achieves w (selectItem rule) _ := achieves_selectItem hs hus halias hw
  apply Achieves.bind (Settles.withRun hitem)
  rintro x v ⟨⟨hread, hplace⟩, hrun⟩
  have hreach : QueryProgress (fun _ => True) True True w v := follows_selectItem rule hrun
  exact settles_modified ⟨⟨hread, hplace⟩, hreach.found.reaches.dialect⟩

theorem achieves_items (hs : Joined (.symbol .comma) (WrittenItem.Spells d) items ts)
    (hus : endsOperand (us ++ more) = true) (halias : frontType (us ++ more) ∉ aliasStarts)
    (hcomma : frontType (us ++ more) ≠ .symbol .comma) {k : ℕ} (hk : items.length ≤ k)
    {bs : List Unit} (hd : w.cursor.dialect = d) (hw : w.cursor.Passes (ts ++ us) more) :
    Achieves w (repeatFor (listRound (.symbol .comma) (addItem rule)) k bs)
      fun _ v => SelectionRead w (WholeList items) us more v := by
  -- By induction on the items. If an item is not read to its end, no comma follows and the reading
  -- of the list ends there.
  induction hs generalizing k bs w with
  | @single item ts hitem =>
    obtain ⟨k, rfl⟩ := Nat.exists_eq_add_of_le' hk
    rw [List.length_singleton, repeatFor_listRound]
    apply (achieves_addItem (hd ▸ hitem) hus halias hw).bind
    rintro _ v ⟨⟨hread, hplace⟩, -⟩
    have hstop : v.cursor.current.type ∉ [TokenType.symbol .comma] := by
      rcases hplace with ⟨-, hp⟩ | ⟨-, hp⟩
      · rw [hp.type]
        simpa using hcomma
      · exact fun h => hp (by simp [selectStops, List.mem_singleton.1 h])
    refine settles_notAt hstop (Settles.pure ⟨hread, ?_⟩)
    simpa [WholeList] using hplace
  | @cons item items s ts rest hitem hsep _ ih =>
    obtain ⟨k, rfl⟩ := Nat.exists_eq_add_of_le' hk
    have hend : endsOperand (s :: (rest ++ us) ++ more) = true := endsOperand_comma hsep
    rw [List.length_cons, ← Nat.add_assoc, repeatFor_listRound]
    rw [List.append_assoc, List.cons_append] at hw
    apply (achieves_addItem (hd ▸ hitem) hend (by simp [hsep, aliasStarts]) hw).bind
    rintro _ v ⟨⟨hread, ⟨hwhole, hp⟩ | ⟨hnot, hp⟩⟩, hv⟩
    · apply settles_skipIf hp (by simp [hsep])
      intro x hx
      rw [if_pos rfl]
      have hdialect : x.cursor.dialect = d := by rw [Cursor.advance_dialect hx.advance, hv, hd]
      apply (@ih _ (k + items.length) (by omega) (bs ++ [()]) hdialect hx.passes).mono
      rintro _ y ⟨hread', hplace⟩
      have hfound : x.found.draft = v.found.draft := congrArg findings hx.draft
      have hboth : WholeList (item :: items) ↔ WholeList items := by
        simp only [WholeList, List.forall_mem_cons]
        simp [hwhole]
      exact ⟨(hread.congr hfound.symm).trans hread', by rwa [hboth]⟩
    · apply settles_notAt fun h => hp (by simp [selectStops, List.mem_singleton.1 h])
      refine Settles.pure ⟨hread, Or.inr ⟨fun h => hnot ?_, hp⟩⟩
      exact h item List.mem_cons_self

theorem achieves_listTo (hs : Joined (.symbol .comma) (WrittenItem.Spells w.cursor.dialect) items ts)
    (hus : endsOperand (us ++ more) = true) (halias : frontType (us ++ more) ∉ aliasStarts)
    (hcomma : frontType (us ++ more) ≠ .symbol .comma) (hw : w.cursor.Passes (ts ++ us) more) :
    Achieves w (selectList rule) fun _ v => SelectionRead w (WholeList items) us more v := by
  have hmoves := hw.length_lt_moves
  rw [List.length_append] at hmoves
  have hlength := hs.length_le
  have hread : Achieves w (commaSeparated (addItem rule)) fun _ v =>
      SelectionRead w (WholeList items) us more v :=
    achieves_items hs hus halias hcomma (by omega) rfl hw
  rw [selectList_eq]
  apply hread.discard.bind
  rintro _ v ⟨hv, hplace⟩
  apply settles_current.2
  exact settles_modified ⟨hv, hplace⟩

theorem achieves_selectList {from_ : Token} {tail : List Token} (hfrom : from_.type = .keyword .FROM)
    (hs : Joined (.symbol .comma) (WrittenItem.Spells w.cursor.dialect) items ts)
    (hw : w.cursor.Passes ts (from_ :: tail)) :
    Achieves w (selectList rule) fun _ v => SelectionRead w (WholeList items) [] (from_ :: tail) v := by
  have hend : endsOperand ([] ++ from_ :: tail) = true := endsOperand_keyword hfrom
  have hp : w.cursor.Passes (ts ++ []) (from_ :: tail) := by simpa using hw
  exact achieves_listTo hs hend (by simp [hfrom, aliasStarts]) (by simp [hfrom]) hp

end SqlFront

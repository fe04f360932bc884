import SqlFront.Proofs.Selection.Turn

/-!
# Items of a select list

An item is read up to its end if turns lead from its first operand to the end or to an alias, and
the call of an aggregate function if nothing but an alias follows it. An item that begins with a
parenthesis is never read up to its end: the parenthesis is taken for an operand by itself, and the
reading ends in front of the closing one at the latest.
-/

set_option autoImplicit false

namespace SqlFront

open SqlFront.Parser SqlFront.Clause

variable {d : Dialect} {rule : ShardingRule} {w v : Workspace Findings} {t o f j s l r : Token}
  {us ts more : List Token} {ps qs rest : List Part}

/-! ## Whole items -/

def Token.isAggregate (t : Token) : Bool := (t.type.keyword?.bind Aggregate.ofKeyword?).isSome

inductive IsStar : List Part → Prop
  | bare {s : Token} : s.type = .symbol .star → IsStar [.word s]
  | owned {o j s : Token} : o.type ≠ .symbol .star → j.type = .symbol .dot →
      s.type = .symbol .star → IsStar [.word o, .word j, .word s]

def OnlyAlias (ps : List Part) : Prop := ∃ as, SpellsAlias as ∧ ps = as.map Part.word

def Continues (ps : List Part) : Prop := ∃ qs, Turns ps qs ∧ OnlyAlias qs

inductive PastFirst : List Part → List Part → Prop
  | choice {c : Token} {us : List Token} {ps : List Part} : PastFirst (.choice c us :: ps) ps
  | call {t l : Token} {us : List Token} {ps : List Part} : t.type ≠ .symbol .star →
      t.isAggregate = false → PastFirst (.word t :: .group l us :: ps) ps
  | member {t j n : Token} {ps : List Part} : t.type ≠ .symbol .star → j.type = .symbol .dot →
      n.type ≠ .symbol .star → PastFirst (.word t :: .word j :: .word n :: ps) ps
  | word {t : Token} {ps : List Part} : t.type ≠ .symbol .star →
      ps.head?.any Part.isGroup = false → frontType (tokensOf ps) ≠ .symbol .dot →
      PastFirst (.word t :: ps) ps

inductive WholeItem : List Part → Prop
  | star {ps : List Part} : IsStar ps → WholeItem ps
  | aggregate {f l : Token} {us : List Token} {ps : List Part} : f.isAggregate = true →
      OnlyAlias ps → WholeItem (.word f :: .group l us :: ps)
  | expression {ps qs : List Part} : PastFirst ps qs → Continues qs → WholeItem ps

theorem PastFirst.unique (h : PastFirst ps qs) (h' : PastFirst ps rest) : qs = rest := by
  cases h <;> cases h' <;> simp_all [Part.isGroup]

theorem PastFirst.suffix (h : PastFirst ps qs) : qs <:+ ps := by
  cases h with
  | call => exact (List.suffix_cons _ _).trans (List.suffix_cons _ _)
  | member =>
    exact ((List.suffix_cons _ _).trans (List.suffix_cons _ _)).trans (List.suffix_cons _ _)
  | choice | word => exact List.suffix_cons _ _

theorem PastFirst.not_star (h : PastFirst ps qs) : ¬IsStar ps := by
  intro hstar
  cases hstar with
  | bare hs =>
    cases h with
    | word ht => exact ht hs
  | owned _ hj hs =>
    cases h with
    | member _ _ hn => exact hn hs
    | word _ _ hdot => exact hdot hj

theorem PastFirst.not_aggregate {us : List Token} (hf : f.isAggregate = true) :
    ¬PastFirst (.word f :: .group l us :: ps) qs := by
  intro h
  cases h with
  | call _ hcall => simp [hf] at hcall
  | word _ hg => simp [Part.isGroup] at hg

theorem not_star_of_aggregate (hf : f.isAggregate = true) : f.type ≠ .symbol .star := by
  intro hs
  simp [Token.isAggregate, hs, TokenType.keyword?] at hf

theorem SpellsAlias.noTurn {as : List Token} (h : SpellsAlias as) :
    NoTurn (as.map Part.word) := by
  cases h with
  | none => exact noTurn_nil
  | @alone t ht =>
    simp only [List.mem_cons, List.not_mem_nil, or_false] at ht
    rcases ht with ht | ht <;>
      exact noTurn_word (by simp [ht, operators]) (by simp [isNegativeNumber, ht])
  | @word a t ha => exact noTurn_word (by simp [ha, operators]) (by simp [isNegativeNumber, ha])

theorem continues_iff (h : Turns ps rest) (hrest : NoTurn rest) : Continues ps ↔ OnlyAlias rest := by
  constructor
  · rintro ⟨qs, hturns, as, has, rfl⟩
    exact ⟨as, has, h.unique hrest hturns has.noTurn⟩
  · exact fun halias => ⟨rest, h, halias⟩

theorem whole_star_iff (hs : s.type = .symbol .star) : WholeItem (.word s :: ps) ↔ ps = [] := by
  constructor
  · rintro (hstar | ⟨hf, -⟩ | ⟨hpast, -⟩)
    · cases hstar with
      | bare => rfl
      | owned ho => exact (ho hs).elim
    · exact (not_star_of_aggregate hf hs).elim
    · cases hpast <;> contradiction
  · rintro rfl
    exact .star (.bare hs)

theorem whole_ownedStar_iff (ho : o.type ≠ .symbol .star) (hj : j.type = .symbol .dot)
    (hs : s.type = .symbol .star) :
    WholeItem (.word o :: .word j :: .word s :: ps) ↔ ps = [] := by
  constructor
  · rintro (hstar | _ | ⟨hpast, -⟩)
    · cases hstar
      rfl
    · cases hpast with
      | member _ _ hn => exact (hn hs).elim
      | word _ _ hdot => exact (hdot hj).elim
  · rintro rfl
    exact .star (.owned ho hj hs)

theorem whole_aggregate_iff (hf : f.isAggregate = true) :
    WholeItem (.word f :: .group l us :: ps) ↔ OnlyAlias ps := by
  constructor
  · rintro (hstar | ⟨-, halias⟩ | ⟨hpast, -⟩)
    · cases hstar
    · exact halias
    · exact (PastFirst.not_aggregate hf hpast).elim
  · exact .aggregate hf

theorem whole_expression_iff (h : PastFirst ps qs) : WholeItem ps ↔ Continues qs := by
  constructor
  · rintro (hstar | ⟨hf, -⟩ | ⟨hpast, hcontinues⟩)
    · exact (h.not_star hstar).elim
    · exact (PastFirst.not_aggregate hf h).elim
    · rwa [h.unique hpast]
  · exact .expression h

/-! ## The end of an item -/

def ComesTo (whole : Prop) (us more : List Token) (c : Cursor) : Prop :=
  (whole ∧ c.Passes us more) ∨ (¬whole ∧ c.current.type ∉ selectStops)

theorem comesTo_of_left {whole : Prop} {c : Cursor} (h : Formed ps) (hwhole : whole ↔ ps = [])
    (hc : c.Passes (tokensOf ps ++ us) more) : ComesTo whole us more c := by
  by_cases hnil : ps = []
  · subst hnil
    exact Or.inl ⟨hwhole.2 rfl, hc⟩
  · refine Or.inr ⟨fun hw => hnil (hwhole.1 hw), ?_⟩
    rw [hc.type, List.append_assoc]
    exact h.front hnil

theorem onlyAlias_nil : OnlyAlias [] := ⟨[], .none, rfl⟩

theorem onlyAlias_as_iff (ha : o.type = .keyword .AS) :
    OnlyAlias (.word o :: .word t :: ps) ↔ t.type.isSymbol = false ∧ ps = [] := by
  constructor
  · rintro ⟨as, has, heq⟩
    cases has with
    | none | alone => simp at heq
    | word _ ht =>
      simp only [List.map_cons, List.map_nil, List.cons.injEq, Part.word.injEq] at heq
      obtain ⟨-, rfl, rfl⟩ := heq
      exact ⟨ht, rfl⟩
  · rintro ⟨ht, rfl⟩
    exact ⟨[o, t], .word ha ht, rfl⟩

theorem onlyAlias_alone_iff (ht : t.type ∈ [TokenType.literal .identifier, .literal .chars]) :
    OnlyAlias (.word t :: ps) ↔ ps = [] := by
  constructor
  · rintro ⟨as, has, heq⟩
    cases has with
    | none => simp at heq
    | alone => exact (List.cons.inj heq).2
    | word ha =>
      simp only [List.map_cons, List.cons.injEq, Part.word.injEq] at heq
      rw [heq.1, ha] at ht
      simp at ht
  · rintro rfl
    exact ⟨[t], .alone ht, rfl⟩

theorem not_onlyAlias (h : Formed ps) (hne : ps ≠ []) (hfront : frontType (tokensOf ps) ∉ aliasStarts) :
    ¬OnlyAlias ps := by
  rintro ⟨as, has, rfl⟩
  have hnil : as ≠ [] := by simpa using hne
  have htokens : tokensOf (as.map Part.word) = as ++ [] := by
    simp [tokensOf, List.flatMap_map, Part.tokens]
  rw [htokens] at hfront
  exact hfront (has.front.resolve_left hnil)

theorem achieves_itemAlias {σ : Type} {w : Workspace σ} (h : Formed ps)
    (hus : frontType (us ++ more) ∉ aliasStarts) (hw : w.cursor.Passes (tokensOf ps ++ us) more) :
    Achieves w (alias? : Parser σ (Option String)) fun _ v => v.draft = w.draft ∧
      ComesTo (OnlyAlias ps) us more v.cursor := by
  unfold alias?
  by_cases has : frontType (tokensOf ps ++ us ++ more) = .keyword .AS
  · rw [← List.mem_singleton, List.append_assoc] at has
    obtain ⟨a, ps, rfl, ha⟩ := h.front_word has
      (fun h => hus (List.mem_singleton.1 h ▸ List.mem_cons_self)) (by decide) (by decide)
    rw [List.mem_singleton] at ha
    obtain ⟨n, ps, rfl⟩ := h.behind [] a ps rfl (by simp [ha])
    apply settles_skipIf hw (by simp [ha])
    intro v hv
    rw [if_pos rfl]
    apply settles_current.2
    rw [hv.passes.current]
    by_cases hn : n.type.isSymbol = true
    · rw [if_pos hn]
      have hwhole : OnlyAlias (.word a :: .word n :: ps) ↔ Part.word n :: ps = [] := by
        simp [onlyAlias_as_iff ha, hn]
      exact Settles.pure ⟨hv.draft, comesTo_of_left h.tail hwhole hv.passes⟩
    · rw [if_neg hn]
      apply (achieves_nameHere hv.passes).bind
      rintro _ x ⟨-, hx⟩
      have hwhole : OnlyAlias (.word a :: .word n :: ps) ↔ ps = [] := by
        simp [onlyAlias_as_iff ha, hn]
      exact Settles.pure ⟨hx.draft.trans hv.draft, comesTo_of_left h.tail.tail hwhole hx.passes⟩
  · apply settles_noSkip hw (by simpa using has)
    rw [if_neg (by simp)]
    apply settles_isAtAny.2
    rw [hw.isAtAny, List.contains_eq_mem]
    by_cases hname : frontType (tokensOf ps ++ us ++ more) ∈
        [TokenType.literal .identifier, .literal .chars]
    · rw [decide_eq_true hname, if_pos rfl]
      rw [List.append_assoc] at hname
      obtain ⟨t, ps, rfl, ht⟩ := h.front_word hname (fun h => hus (List.mem_cons_of_mem _ h))
        (by decide) (by decide)
      apply (achieves_nameHere hw).bind
      rintro _ v ⟨-, hv⟩
      exact Settles.pure ⟨hv.draft, comesTo_of_left h.tail (onlyAlias_alone_iff ht) hv.passes⟩
    · rw [decide_eq_false hname, if_neg (by simp)]
      refine Settles.pure ⟨rfl, comesTo_of_left h ?_ hw⟩
      constructor
      · intro halias
        by_contra hne
        refine not_onlyAlias h hne ?_ halias
        have hfront : frontType (tokensOf ps) = frontType (tokensOf ps ++ us ++ more) := by
          rw [List.append_assoc, frontType_append fun hnil => hne (tokensOf_eq_nil hnil)]
        rw [hfront]
        simp only [aliasStarts, List.mem_cons, not_or] at hname ⊢
        exact ⟨has, hname⟩
      · rintro rfl
        exact onlyAlias_nil

def itemEnding (start : ℕ) : Parser Findings SelectItem := do
  whileM nextOperand (return ())
  let c ← cursor
  let source := unquoted (trimmed (c.slice start c.previousStop))
  let alias? ← alias?
  return .common source alias?

theorem achieves_itemEnding {start : ℕ} (h : Formed ps) (hf : Finished ps)
    (hus : endsOperand (us ++ more) = true) (halias : frontType (us ++ more) ∉ aliasStarts)
    (hw : w.cursor.Passes (tokensOf ps ++ us) more) :
    Achieves w (itemEnding start) fun _ v => Collects w 0 [] v ∧
      ComesTo (Continues ps) us more v.cursor := by
  unfold itemEnding
  apply (achieves_turns h hf hus hw).bind
  rintro _ v ⟨rest, hturns, hnone, hv, hread⟩
  apply settles_cursor.2
  apply (achieves_itemAlias (h.suffix hturns.suffix) halias hv).bind
  rintro _ x ⟨hx, hplace⟩
  rw [← continues_iff hturns hnone] at hplace
  exact Settles.pure ⟨hread.congr hx.symm, hplace⟩

/-! ## Items -/

def memberOf (owner : String) : Parser Findings (Option SelectItem) := do
  if ← skipSymbol .star then return some (SelectItem.star (some owner))
  else
    advance
    return none

theorem achieves_memberOf {owner : String} (ht : t.type ≠ .symbol .star)
    (hj : j.type = .symbol .dot) (hw : w.cursor.Passes (tokensOf (.word o :: ps) ++ us) more) :
    Achieves w (memberOf owner) fun item v => ReadPast w ps us more v ∧
      ((item = none ∧ PastFirst (.word t :: .word j :: .word o :: ps) ps) ∨
        (item.isSome ∧ o.type = .symbol .star)) := by
  unfold memberOf
  by_cases ho : o.type = .symbol .star
  · apply settles_skipIf hw (by simp [ho])
    intro v hv
    exact Settles.pure ⟨⟨hv.passes, .of_eq hv.draft⟩, Or.inr ⟨rfl, ho⟩⟩
  · apply settles_noSkip hw (by simpa using ho)
    apply (achieves_advance hw).bind
    intro _ v hv
    exact Settles.pure ⟨⟨hv.passes, .of_eq hv.draft⟩, Or.inl ⟨rfl, .member ht hj ho⟩⟩

theorem achieves_ownedOperand (ht : t.type ≠ .symbol .star) (hj : j.type = .symbol .dot)
    (hw : w.cursor.Passes (tokensOf (.word o :: ps) ++ us) more) :
    Achieves w (ownedOperand rule t) fun item v => ReadPast w ps us more v ∧
      ((item = none ∧ PastFirst (.word t :: .word j :: .word o :: ps) ps) ∨
        (item.isSome ∧ o.type = .symbol .star)) := by
  have hmember : ∀ x : Workspace Findings, x.cursor = w.cursor → Collects w 0 [] x →
      Achieves x (memberOf (unquoted t.literals)) fun item v => ReadPast w ps us more v ∧
        ((item = none ∧ PastFirst (.word t :: .word j :: .word o :: ps) ps) ∨
          (item.isSome ∧ o.type = .symbol .star)) := by
    intro x hx hread
    apply (achieves_memberOf ht hj (hx ▸ hw)).mono
    rintro item y ⟨⟨hy, hread'⟩, hitem⟩
    exact ⟨⟨hy, hread.trans hread'⟩, hitem⟩
  unfold ownedOperand
  simp only
  split
  · apply settles_modifyDraft.2
    exact hmember ⟨w.cursor, _⟩ rfl ((Collects.refl w).addEdit _)
  · exact hmember w rfl (.refl w)

theorem achieves_operandRest (ht : t.type ≠ .symbol .star)
    (hcall : t.isAggregate = true → ps.head?.any Part.isGroup = false) (h : Formed ps)
    (hus : endsOperand (us ++ more) = true) (hw : w.cursor.Passes (tokensOf ps ++ us) more) :
    Achieves w (operandRest rule t) fun item v => ∃ rest, ReadPast w rest us more v ∧
      ((item = none ∧ PastFirst (.word t :: ps) rest) ∨ ∃ j s, item.isSome ∧
        ps = .word j :: .word s :: rest ∧ j.type = .symbol .dot ∧ s.type = .symbol .star) := by
  unfold operandRest
  apply settles_isAt.2
  rw [hw.isAt, List.append_assoc]
  by_cases hg : ps.head?.any Part.isGroup = false
  · rw [beq_eq_false_iff_ne.2 (h.not_paren hg (not_leftParen hus)), if_neg (by simp)]
    by_cases hdot : frontType (tokensOf ps ++ us ++ more) ∈ [TokenType.symbol .dot]
    · have hend : frontType (us ++ more) ∉ [TokenType.symbol .dot] := fun h =>
        not_operator hus (List.mem_singleton.1 h ▸ by decide)
      obtain ⟨j, ps, rfl, hj⟩ := h.front_word (List.append_assoc _ us more ▸ hdot) hend (by decide)
        (by decide)
      rw [List.mem_singleton] at hj
      obtain ⟨s, ps, rfl⟩ := h.behind [] j ps rfl (by simp [hj])
      apply settles_skipIf hw hdot
      intro v hv
      rw [if_pos rfl]
      apply (achieves_ownedOperand ht hj hv.passes).mono
      rintro item x ⟨⟨hx, hread⟩, hitem⟩
      refine ⟨ps, ⟨hx, (Collects.of_eq hv.draft).trans hread⟩, ?_⟩
      exact hitem.imp_right fun ⟨hitem, hs⟩ => ⟨j, s, hitem, rfl, hj, hs⟩
    · apply settles_noSkip hw hdot
      rw [if_neg (by simp)]
      refine Settles.pure ⟨ps, ⟨hw, .refl w⟩, Or.inl ⟨rfl, .word ht hg fun hfront => hdot ?_⟩⟩
      rcases ps with _ | ⟨p, ps⟩
      · simp at hfront
      · cases p <;> simpa using hfront
  · obtain ⟨l, vs, ps, rfl⟩ := exists_group hg
    rw [tokensOf_group, List.cons_append, frontType_cons, h.group.1, beq_self_eq_true, if_pos rfl]
    apply (achieves_closed h hw).bind
    intro _ v hv
    have hnot : t.isAggregate = false := by
      by_contra haggregate
      exact hg (hcall (by simpa using haggregate))
    exact Settles.pure ⟨ps, hv, Or.inl ⟨rfl, .call ht hnot⟩⟩

theorem achieves_firstWord (ht : t.type ∉ [TokenType.keyword .CASE, .symbol .question, .symbol .star])
    (hcall : t.isAggregate = true → ps.head?.any Part.isGroup = false) (h : Formed ps)
    (hus : endsOperand (us ++ more) = true) (hw : w.cursor.Passes (t :: (tokensOf ps ++ us)) more) :
    Achieves w (firstOperand rule) fun item v => ∃ rest, ReadPast w rest us more v ∧
      ((item = none ∧ PastFirst (.word t :: ps) rest) ∨ ∃ j s, item.isSome ∧
        ps = .word j :: .word s :: rest ∧ j.type = .symbol .dot ∧ s.type = .symbol .star) := by
  simp only [List.mem_cons, List.not_mem_nil, or_false, not_or] at ht
  unfold firstOperand
  apply settles_current.2
  apply settles_isAt.2
  rw [hw.isAt, List.cons_append, frontType_cons, beq_eq_false_iff_ne.2 ht.1, if_neg (by simp),
    hw.current]
  apply (achieves_skipToken hw).bind
  intro _ v hv
  have hread := hv.collects
  rw [placeholderCount_of_ne ht.2.1] at hread
  apply (achieves_operandRest ht.2.2 hcall h hus hv.passes).mono
  rintro item x ⟨rest, ⟨hx, hread'⟩, hitem⟩
  exact ⟨rest, ⟨hx, hread.trans hread'⟩, hitem⟩

theorem achieves_firstChoice {c : Token} (h : Formed (.choice c us :: ps))
    (hw : w.cursor.Passes (tokensOf (.choice c us :: ps) ++ ts) more) :
    Achieves w (firstOperand rule) fun item v => item = none ∧ ReadPast w ps ts more v := by
  obtain ⟨hc, hus⟩ := h.choice
  have hp : w.cursor.Passes (c :: us ++ (tokensOf ps ++ ts)) more := by simpa using hw
  unfold firstOperand
  apply settles_current.2
  apply settles_isAt.2
  rw [hp.isAt, List.cons_append, List.cons_append, frontType_cons, hc, beq_self_eq_true, if_pos rfl]
  apply (achieves_skipCase hc hus hp).bind
  exact fun _ v hv => Settles.pure ⟨rfl, hv⟩

theorem settles_commonItem {P : Option SelectItem → Workspace Findings → Prop}
    {Q : SelectItem → Workspace Findings → Prop} {F : Fault → Prop}
    (hfirst : Settles w (firstOperand rule) P F) (hsome : ∀ item v, P (some item) v → Q item v)
    (hnone : ∀ v, P none v → Settles v (itemEnding w.cursor.current.start) Q F) :
    Settles w (commonItem rule) Q F := by
  unfold commonItem
  apply settles_current.2
  apply hfirst.bind
  rintro (_ | item) v hv
  · exact hnone v hv
  · exact Settles.pure (hsome item v hv)

theorem achieves_expressionItem (h : Formed ps) (hf : Finished ps ∨ IsStar ps) (hne : ps ≠ [])
    (hg : ps.head?.any Part.isGroup = false) (hstar : frontType (tokensOf ps) ≠ .symbol .star)
    (hcall : ∀ t qs, ps = .word t :: qs → t.isAggregate = true → qs.head?.any Part.isGroup = false)
    (hus : endsOperand (us ++ more) = true) (halias : frontType (us ++ more) ∉ aliasStarts)
    (hw : w.cursor.Passes (tokensOf ps ++ us) more) :
    Achieves w (commonItem rule) fun _ v => Collects w 0 [] v ∧
      ComesTo (WholeItem ps) us more v.cursor := by
  have hending : ∀ {rest : List Part} {start : ℕ} {v : Workspace Findings}, PastFirst ps rest →
      ReadPast w rest us more v → Achieves v (itemEnding start) fun _ x => Collects w 0 [] x ∧
        ComesTo (WholeItem ps) us more x.cursor := by
    rintro rest start v hpast ⟨hv, hread⟩
    have hfinished := hf.resolve_right hpast.not_star
    apply (achieves_itemEnding (h.suffix hpast.suffix) (hfinished.suffix hpast.suffix) hus halias
      hv).mono
    rintro _ x ⟨hx, hplace⟩
    rw [← whole_expression_iff hpast] at hplace
    exact ⟨hread.trans hx, hplace⟩
  obtain ⟨p, ps, rfl⟩ := List.exists_cons_of_ne_nil hne
  cases p with
  | word t =>
    have ht := h.word
    simp only [Part.bounds, List.mem_cons, not_or] at ht
    have hfirst : Achieves w (firstOperand rule) _ :=
      achieves_firstWord (by simpa [ht] using hstar) (hcall t ps rfl) h.tail hus hw
    apply settles_commonItem hfirst
    · rintro item v ⟨rest, ⟨hv, hread⟩, ⟨hnone, -⟩ | ⟨j, s, -, rfl, hj, hs⟩⟩
      · cases hnone
      · exact ⟨hread, comesTo_of_left h.tail.tail.tail (whole_ownedStar_iff hstar hj hs) hv⟩
    · rintro v ⟨rest, hv, ⟨-, hpast⟩ | ⟨_, _, hsome, -⟩⟩
      · exact hending hpast hv
      · simp at hsome
  | group l vs => simp [Part.isGroup] at hg
  | choice c vs =>
    apply settles_commonItem (achieves_firstChoice h hw)
    · rintro item v ⟨hnone, -⟩
      cases hnone
    · exact fun v hv => hending .choice hv.2

theorem achieves_groupItem (hl : l.type = .symbol .leftParen) (h : Formed ps) (hf : Finished ps)
    (hdot : frontType (tokensOf ps) ≠ .symbol .dot) (hr : r.type = .symbol .rightParen)
    (hw : w.cursor.Passes (l :: (tokensOf ps ++ r :: us)) more) :
    Achieves w (commonItem rule) fun _ v => Collects w 0 [] v ∧
      v.cursor.current.type ∉ selectStops := by
  have hus : endsOperand (r :: us ++ more) = true := endsOperand_rightParen hr
  have haggregate : l.isAggregate = false := by simp [Token.isAggregate, hl, TokenType.keyword?]
  have hfirst : Achieves w (firstOperand rule) _ :=
    achieves_firstWord (t := l) (by simp [hl]) (by simp [haggregate]) h hus hw
  apply settles_commonItem hfirst
  · rintro item v ⟨rest, -, ⟨hnone, -⟩ | ⟨j, s, -, rfl, hj, -⟩⟩
    · cases hnone
    · exact (hdot hj).elim
  · rintro v ⟨rest, ⟨hv, hread⟩, ⟨-, hpast⟩ | ⟨_, _, hsome, -⟩⟩
    · have hsuffix : rest <:+ ps := by
        cases hpast with
        | call => exact List.suffix_cons _ _
        | member => exact (List.suffix_cons _ _).trans (List.suffix_cons _ _)
        | word => exact List.suffix_rfl
      apply (achieves_itemEnding (h.suffix hsuffix) (hf.suffix hsuffix) hus
        (by simp [hr, aliasStarts]) hv).mono
      rintro _ x ⟨hx, ⟨-, hp⟩ | ⟨-, hstuck⟩⟩
      · refine ⟨hread.trans hx, ?_⟩
        rw [hp.type, List.cons_append, frontType_cons, hr]
        decide
      · exact ⟨hread.trans hx, hstuck⟩
    · simp at hsome

end SqlFront

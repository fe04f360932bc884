import SqlFront.Proofs.Derived.Call
import SqlFront.Proofs.Selection.Chain
import SqlFront.Proofs.Selection.List

/-!
# The items that a select list is cut into

Each item that is written becomes one item of the query, in the order of the text, unless the reading
gets stuck in one: nothing but an alias is read behind the call of an aggregate function, and a call
with an owner is taken for a member of the owner.
-/

set_option autoImplicit false

namespace SqlFront

open SqlFront.Parser SqlFront.Clause

variable {d : Dialect} {rule : ShardingRule} {sql : String} {w v : Workspace Query} {t : Token}
  {ts us more : List Token}

/-! ## Items as they are written -/

/-- An item of a select list: a star, alone or behind an owner, the call of an aggregate function,
or a chain. Behind the latter two an alias may stand. -/
inductive ListedItem
  | star (s : Token)
  | ownedStar (o j s : Token)
  | aggregate (function : Aggregate) (f l : Token) (inside : List Token) (r : Token)
      (steps as : List Token)
  | chain (first : FirstOperand) (steps as : List Token)

namespace ListedItem

inductive Spells (d : Dialect) : ListedItem → List Token → Prop
  | star {s : Token} : s.type = .symbol .star → Spells d (star s) [s]
  | ownedStar {o j s : Token} : BeginsOperand d o → j.type = .symbol .dot →
      s.type = .symbol .star → Spells d (ownedStar o j s) [o, j, s]
  | aggregate {function : Aggregate} {f l r : Token} {inside steps as : List Token} :
      f.aggregate? = some function → l.type = .symbol .leftParen →
      Closes 0 (inside ++ [r]) → ItemSteps steps → SpellsAlias as →
      Spells d (aggregate function f l inside r steps as)
        (f :: l :: (inside ++ r :: (steps ++ as)))
  | chain {first : FirstOperand} {steps as : List Token} : first.Fits d → ItemSteps steps →
      (∀ t, first = .word t → frontType steps ≠ .symbol .dot) → SpellsAlias as →
      Spells d (chain first steps as) (first.tokens ++ (steps ++ as))

def selected (text : List Char) : ListedItem → SelectItem
  | star _ => .star none
  | ownedStar o _ _ => .star (some (unquoted o.literals))
  | aggregate function _ l _ r _ as =>
    .aggregation ⟨function, "(" ++ slice text l.stop r.start ++ ")", aliasName as, []⟩
  | chain first steps as => .common (unquoted (spanOf text (first.tokens ++ steps))) (aliasName as)

def isBare : ListedItem → Bool
  | star _ => true
  | _ => false

def owner? : ListedItem → Option Token
  | ownedStar o _ _ => some o
  | chain first _ _ => first.owner?
  | _ => none

def count : ListedItem → ℕ
  | star _ => 0
  | ownedStar o _ _ => placeholderCount [o]
  | aggregate _ _ _ inside _ steps _ => placeholderCount inside + placeholderCount steps
  | chain first steps _ => first.count + placeholderCount steps

def IsRead : ListedItem → Prop
  | aggregate _ _ _ _ _ steps _ => steps = []
  | chain first _ _ => first.IsRead
  | _ => True

end ListedItem

variable {item : ListedItem} {items : List ListedItem}

def Query.listing (rule : ShardingRule) (text : List Char) (q : Query) (items : List ListedItem) :
    Query :=
  { q with
    items := q.items ++ items.map (ListedItem.selected text)
    containsStar := q.containsStar || items.any ListedItem.isBare
    findings := { q.findings with
      edits := q.findings.edits ++ items.flatMap fun i => ownerEdits rule i.owner?
      placeholders := q.findings.placeholders + (items.map ListedItem.count).sum } }

theorem Query.listing_nil {text : List Char} (q : Query) : q.listing rule text [] = q := by
  simp [listing]

theorem Query.listing_append {text : List Char} (q : Query) (xs ys : List ListedItem) :
    q.listing rule text (xs ++ ys) = (q.listing rule text xs).listing rule text ys := by
  simp [listing, Bool.or_assoc, Nat.add_assoc]

def StopsEarly (ts : List Token) (c : Cursor) : Prop :=
  ∃ us, us ≠ [] ∧ c.Faces (us ++ ts) ∧ frontType us ∉ [TokenType.symbol .comma, .endOfText]

structure ItemRead (rule : ShardingRule) (w : Workspace Query) (item : ListedItem)
    (ts more : List Token) (i : SelectItem) (v : Workspace Query) : Prop where
  selected : i = item.selected w.cursor.text
  reaches : w.cursor.Reaches v.cursor
  passes : v.cursor.Passes ts more
  draft : { v.draft with items := v.draft.items ++ [i] } = w.draft.listing rule w.cursor.text [item]

/-! ## Reading an item -/

section

variable {Q : SelectItem → Workspace Query → Prop} {F : Fault → Prop}

theorem settles_plainItem (ht : t.type ∉ keywordTypes w.cursor.dialect.grammar.beforeSelectItem)
    (hstar : t.type ≠ .symbol .star) (hw : w.cursor.Passes (t :: ts) more)
    (h : Settles w (plainItem rule) Q F) : Settles w (selectItem rule) Q F := by
  unfold selectItem
  apply settles_grammar.2
  apply settles_noSkip hw ht
  apply settles_noSkip hw (by simpa using hstar)
  rwa [if_neg (by simp)]

theorem settles_textItem (hnone : t.isAggregate = true → frontType (ts ++ more) ≠ .symbol .leftParen)
    (hw : w.cursor.Passes (t :: ts) more)
    (h : Settles w.found (commonItem rule)
      (fun i v => Q i ⟨v.cursor, setFindings w.draft v.draft⟩) F) :
    Settles w (plainItem rule) Q F := by
  unfold plainItem
  apply (achieves_aggregateHere hw).bind
  rintro a v ⟨rfl, ha, -⟩
  obtain rfl : a = none := by
    rw [← Option.not_isSome_iff_eq_none, ha]
    exact fun ⟨haggregate, hparen⟩ => hnone haggregate hparen
  exact settles_onFindings.2 h

end

variable {s o j f l r : Token} {first : FirstOperand} {steps as inside : List Token}
  {function : Aggregate}

theorem achieves_star (hs : s.type = .symbol .star) (hw : w.cursor.Passes (s :: us) more) :
    Achieves w (selectItem rule) (ItemRead rule w (.star s) us more) := by
  have hbefore : s.type ∉ keywordTypes w.cursor.dialect.grammar.beforeSelectItem := by
    simp [hs, keywordTypes]
  unfold selectItem
  apply settles_grammar.2
  apply settles_noSkip hw hbefore
  apply settles_skipIf hw (by simp [hs])
  intro v hv
  rw [if_pos rfl]
  apply settles_modifyDraft.2
  refine Settles.pure ⟨rfl, .single hv.advance, hv.passes, ?_⟩
  rw [hv.draft]
  simp [Query.listing, ListedItem.selected, ListedItem.isBare, ListedItem.owner?, ListedItem.count,
    ownerEdits]

theorem ItemRead.of_records {i : SelectItem} {x : Workspace Findings}
    (hi : i = item.selected w.cursor.text) (hr : w.cursor.Reaches x.cursor)
    (hx : x.cursor.Passes ts more) (hbare : item.isBare = false)
    (h : Records w.found item.count (ownerEdits rule item.owner?) x) :
    ItemRead rule w item ts more i ⟨x.cursor, setFindings w.draft x.draft⟩ := by
  have hdraft : x.draft = { w.draft.findings with
      placeholders := w.draft.findings.placeholders + item.count
      edits := w.draft.findings.edits ++ ownerEdits rule item.owner? } := h
  refine ⟨hi, hr, hx, ?_⟩
  rw [hdraft, hi]
  simp [Query.listing, hbare, setFindings]

theorem achieves_ownedStar (ho : BeginsOperand w.cursor.dialect o) (hj : j.type = .symbol .dot)
    (hs : s.type = .symbol .star) (hw : w.cursor.Passes (o :: j :: s :: us) more) :
    Achieves w (selectItem rule) (ItemRead rule w (.ownedStar o j s) us more) := by
  have hstar : o.type ≠ .symbol .star := fun h => ho.1 (by simp [h])
  have hfirst : Achieves w.found (firstOperand rule) _ := achieves_ownersStar ho hj hs hw
  apply settles_plainItem ho.2 hstar hw
  apply settles_textItem (fun _ => by simp [hj]) hw
  apply settles_commonItem hfirst
  · rintro i v ⟨hi, hwalk, hv, hrecords⟩
    exact .of_records (Option.some.inj hi) hwalk.reaches hv rfl hrecords
  · rintro v ⟨hnone, -⟩
    cases hnone

theorem achieves_chain (hf : first.Fits d) (hread : first.IsRead) (hs : ItemSteps steps)
    (hdot : ∀ t, first = .word t → frontType steps ≠ .symbol .dot) (has : SpellsAlias as)
    (hc : Arrived d sql w.cursor) (hm : endsOperand (us ++ more) = true)
    (halias : frontType (us ++ more) ∉ aliasStarts)
    (hw : w.cursor.Passes (first.tokens ++ (steps ++ (as ++ us))) more) :
    Achieves w (selectItem rule) (ItemRead rule w (.chain first steps as) us more) := by
  have hbehind := has.endsOperand hm
  have hparen : frontType (steps ++ (as ++ us) ++ more) ≠ .symbol .leftParen := by
    rw [List.append_assoc]
    exact hs.front_ne (by simp [operators]) (not_leftParen hbehind)
  have hword : ∀ t, first = .word t → frontType (steps ++ (as ++ us) ++ more) ∉
      [TokenType.symbol .dot, .symbol .leftParen] := by
    intro t ht
    have hnotDot : frontType (steps ++ (as ++ us) ++ more) ≠ .symbol .dot := by
      by_cases hnil : steps = []
      · subst hnil
        exact fun h => not_operator hbehind (h ▸ by decide)
      · rw [List.append_assoc, frontType_append hnil]
        exact hdot t ht
    simp only [List.mem_cons, List.not_mem_nil, or_false, not_or]
    exact ⟨hnotDot, hparen⟩
  obtain ⟨t, ts, hfront, hnotStar, hbefore, hcall⟩ := hf.front fun _ _ => hparen
  simp only [List.mem_cons, List.not_mem_nil, or_false, not_or] at hnotStar
  have hp : w.cursor.Passes (t :: (ts ++ (steps ++ (as ++ us)))) more := by
    rw [← List.cons_append, ← hfront]
    exact hw
  have hne : first.tokens ++ steps ≠ [] := by simp [hfront]
  have hend : frontType (first.tokens ++ steps) ≠ .endOfText := by simpa [hfront] using hnotStar.2
  have hfirst : Achieves w.found (firstOperand rule) _ := achieves_firstOperand hf hread hword hw
  apply settles_plainItem (hc.dialect ▸ hbefore) hnotStar.1 hp
  apply settles_textItem (by rwa [List.append_assoc]) hp
  apply settles_commonItem hfirst
  · rintro i v ⟨hnone, -⟩
    cases hnone
  · rintro v ⟨-, hwalk, hv, hrecords⟩
    apply (achieves_chainEnding hs has FirstOperand.tokens_ne_nil hm halias hwalk hv).mono
    rintro i x ⟨rfl, hwalk', hx, hcounts⟩
    refine .of_records ?_ hwalk'.reaches hx rfl (hrecords.counts hcounts)
    have hspan := hc.trimmed_span (by simpa using hw.faces) hne hend
    exact congrArg (fun source => SelectItem.common (unquoted source) (aliasName as)) hspan

section Aggregates

variable {Q : SelectItem → Workspace Query → Prop} {F : Fault → Prop}

theorem settles_aggregate (hf : f.aggregate? = some function) (hl : l.type = .symbol .leftParen)
    (hus : Closes 0 (inside ++ [r])) (hc : Arrived d sql w.cursor)
    (hw : w.cursor.Passes (f :: l :: (inside ++ r :: us)) more)
    (h : ∀ x : Workspace Query, w.cursor.Reaches x.cursor → x.cursor.Passes us more →
      x.draft = { w.draft with findings := { w.draft.findings with
        placeholders := w.draft.findings.placeholders + placeholderCount inside } } →
      Settles x alias? (fun alias? => Q (.aggregation
        ⟨function, "(" ++ slice w.cursor.text l.stop r.start ++ ")", alias?, []⟩)) F) :
    Settles w (selectItem rule) Q F := by
  obtain ⟨k, hk, hfunction⟩ := Option.bind_eq_some_iff.1 hf
  have hkeyword : f.type = .keyword k := by
    cases htype : f.type <;> simp_all [TokenType.keyword?]
  have hbefore : f.type ∉ keywordTypes w.cursor.dialect.grammar.beforeSelectItem := by
    have hskipped : ∀ d : Dialect, ∀ k ∈ d.grammar.beforeSelectItem, Aggregate.ofKeyword? k = none := by
      intro d
      cases d <;> decide
    intro hmem
    have hk : k ∈ w.cursor.dialect.grammar.beforeSelectItem := by
      simpa [hkeyword, keywordTypes] using hmem
    simp [hskipped _ k hk] at hfunction
  have hp : w.cursor.Passes (f :: (l :: (inside ++ [r]) ++ us)) more := by simpa using hw
  have hinner := hc.inner hp.faces (by simp [hkeyword])
  apply settles_plainItem hbefore (by simp [hkeyword]) hp
  unfold plainItem aggregationItem
  apply (achieves_aggregateHere hp).bind
  rintro a v ⟨rfl, ha, hname⟩
  have haggregate : f.isAggregate = true := by simp [Token.isAggregate, hk, hfunction]
  obtain ⟨g, rfl⟩ := Option.isSome_iff_exists.1 (ha.2 ⟨haggregate, hl⟩)
  obtain rfl : g = function := Option.some.inj ((hname g rfl).symm.trans hf)
  apply (achieves_advance hp).bind
  intro _ x hx
  -- The parentheses themselves are no placeholders.
  have hcount : placeholderCount (l :: (inside ++ [r])) = placeholderCount inside := by
    obtain ⟨vs, s, heq, hs⟩ := hus.last_rightParen
    obtain ⟨-, hlast⟩ := List.append_inj' heq rfl
    obtain rfl := List.singleton_inj.1 hlast
    rw [placeholderCount_cons, placeholderCount_append, placeholderCount_of_ne (by simp [hl]),
      placeholderCount_of_ne (by simp [hs]), Nat.zero_add, Nat.add_zero]
  have hfound : Achieves x.found skipParentheses _ :=
    achieves_argument hl hus (fun t ht => hinner t (by simp_all)) hx.passes
  have hargument : Achieves x (onFindings skipParentheses) fun argument y =>
      argument = slice v.cursor.text l.stop r.start ∧ v.cursor.Reaches y.cursor ∧
      y.cursor.Passes us more ∧ y.draft = { v.draft with findings := { v.draft.findings with
        placeholders := v.draft.findings.placeholders + placeholderCount inside } } := by
    apply settles_onFindings.2
    apply hfound.mono
    rintro _ y ⟨rfl, hy⟩
    have hreaches := Cursor.Reaches.single hx.advance
    refine ⟨by rw [← hreaches.text]; rfl, hreaches.trans hy.walk.reaches, hy.passes, ?_⟩
    have hdraft := hy.counts
    rw [hcount] at hdraft
    rw [hdraft, ← hx.draft]
    rfl
  apply hargument.bind
  rintro _ y ⟨rfl, hreaches, hy, hdraft⟩
  exact (h y hreaches hy hdraft).bind fun _ _ hz => Settles.pure hz

theorem achieves_aggregate (hf : f.aggregate? = some function) (hl : l.type = .symbol .leftParen)
    (hus : Closes 0 (inside ++ [r])) (has : SpellsAlias as) (hc : Arrived d sql w.cursor)
    (halias : frontType (us ++ more) ∉ aliasStarts)
    (hw : w.cursor.Passes (f :: l :: (inside ++ r :: (as ++ us))) more) :
    Achieves w (selectItem rule)
      (ItemRead rule w (.aggregate function f l inside r [] as) us more) := by
  apply settles_aggregate hf hl hus hc hw
  intro x hreaches hx hdraft
  apply (achieves_alias has halias hx).mono
  rintro _ v ⟨rfl, hwalk, hv, hkept⟩
  refine ⟨rfl, hreaches.trans hwalk.reaches, hv, ?_⟩
  rw [hkept, hdraft]
  simp [Query.listing, ListedItem.selected, ListedItem.isBare, ListedItem.owner?, ListedItem.count,
    ownerEdits, placeholderCount]

theorem achieves_stuckAggregate (hf : f.aggregate? = some function)
    (hl : l.type = .symbol .leftParen) (hus : Closes 0 (inside ++ [r])) (hs : ItemSteps steps)
    (hne : steps ≠ []) (hc : Arrived d sql w.cursor)
    (hw : w.cursor.Passes (f :: l :: (inside ++ r :: (steps ++ (as ++ us)))) more) :
    Achieves w (selectItem rule) fun _ v => StopsEarly (us ++ more) v.cursor := by
  have hfront := (hs.front (as ++ us ++ more)).resolve_left hne
  have hnone : frontType (steps ++ (as ++ us) ++ more) ∉ aliasStarts := by
    have hapart : ∀ x ∈ TokenType.literal .int :: .literal .float :: operators, x ∉ aliasStarts := by
      decide
    rw [List.append_assoc]
    exact hapart _ hfront
  apply settles_aggregate hf hl hus hc hw
  rintro x - hx -
  apply (achieves_alias .none hnone hx).mono
  rintro _ v ⟨-, -, hv, -⟩
  refine ⟨steps ++ as, by simp [hne], by simpa using hv.faces, ?_⟩
  have hapart : ∀ x ∈ TokenType.literal .int :: .literal .float :: operators,
      x ∉ [TokenType.symbol .comma, .endOfText] := by decide
  rw [frontType_append hne]
  rw [frontType_append hne] at hfront
  exact hapart _ hfront

end Aggregates

theorem achieves_stuckCall (hf : (FirstOperand.ownedCall o j f l inside).Fits d)
    (hc : Arrived d sql w.cursor)
    (hw : w.cursor.Passes (o :: j :: f :: l :: (inside ++ ts)) more) :
    Achieves w (selectItem rule) fun _ v => StopsEarly (ts ++ more) v.cursor := by
  cases hf with
  | ownedCall ho hj hname hl hus =>
    have hstar : o.type ≠ .symbol .star := fun h => ho.1 (by simp [h])
    have hp : w.found.cursor.Passes ((FirstOperand.member o j f).tokens ++ (l :: (inside ++ ts))) more :=
      hw
    have hfirst : Achieves w.found (firstOperand rule) _ :=
      achieves_firstOperand (.member ho hj hname) trivial (by simp) hp
    apply settles_plainItem (hc.dialect ▸ ho.2) hstar hw
    apply settles_textItem (fun _ => by simp [hj]) hw
    apply settles_commonItem hfirst
    · rintro i v ⟨hnone, -⟩
      cases hnone
    · rintro v ⟨-, -, hv, -⟩
      have htype : v.cursor.current.type = .symbol .leftParen := by rw [hv.current, hl]
      apply (achieves_noEnding hv (by simp [htype, operators]) (by simp [htype, aliasStarts])).mono
      intro i x hx
      refine ⟨l :: inside, by simp, ?_, by simp [hl]⟩
      change x.cursor.Faces _
      rw [hx]
      simpa using hv.faces

theorem achieves_listed (h : item.Spells d ts) (hc : Arrived d sql w.cursor)
    (hm : endsOperand (us ++ more) = true) (halias : frontType (us ++ more) ∉ aliasStarts)
    (hw : w.cursor.Passes (ts ++ us) more) :
    Achieves w (selectItem rule) fun i v => (item.IsRead ∧ ItemRead rule w item us more i v) ∨
      (¬item.IsRead ∧ StopsEarly (us ++ more) v.cursor) := by
  cases h with
  | star hs => exact (achieves_star hs hw).mono fun _ _ hv => Or.inl ⟨trivial, hv⟩
  | ownedStar ho hj hs =>
    exact (achieves_ownedStar (hc.dialect ▸ ho) hj hs hw).mono fun _ _ hv => Or.inl ⟨trivial, hv⟩
  | @aggregate function f l r inside steps as hf hl hus hsteps has =>
    have hp : w.cursor.Passes (f :: l :: (inside ++ r :: (steps ++ (as ++ us)))) more := by
      simpa using hw
    by_cases hnil : steps = []
    · subst hnil
      exact (achieves_aggregate hf hl hus has hc halias hp).mono fun _ _ hv => Or.inl ⟨rfl, hv⟩
    · exact (achieves_stuckAggregate hf hl hus hsteps hnil hc hp).mono
        fun _ _ hv => Or.inr ⟨hnil, hv⟩
  | @chain first steps as hf hsteps hdot has =>
    by_cases hread : first.IsRead
    · have hp : w.cursor.Passes (first.tokens ++ (steps ++ (as ++ us))) more := by simpa using hw
      exact (achieves_chain hf hread hsteps hdot has hc hm halias hp).mono
        fun _ _ hv => Or.inl ⟨hread, hv⟩
    · cases first with
      | ownedCall o j f l inside =>
        have hp : w.cursor.Passes (o :: j :: f :: l :: (inside ++ (steps ++ (as ++ us)))) more := by
          simpa [FirstOperand.tokens] using hw
        apply (achieves_stuckCall hf hc hp).mono
        rintro _ v ⟨vs, hvs, hv, hcomma⟩
        refine Or.inr ⟨hread, vs ++ (steps ++ as), by simp [hvs], by simpa using hv, ?_⟩
        rwa [frontType_append hvs]
      | word | member | call | choice => exact (hread trivial).elim

/-! ## The list -/

def EndsList (ts : List Token) : Prop :=
  endsOperand ts = true ∧ frontType ts ∉ TokenType.symbol .comma :: aliasStarts

theorem endsList_of_keyword (h : frontType ts = .endOfText ∨ ∃ k ≠ .AS, frontType ts = .keyword k) :
    EndsList ts := by
  rcases h with h | ⟨k, hk, h⟩
  · exact ⟨endsOperand_of_type h (by decide) (by simp) (by simp) (by simp), by simp [h, aliasStarts]⟩
  · exact ⟨endsOperand_keyword h, by simp [h, hk, aliasStarts]⟩

structure CutInto (rule : ShardingRule) (text : List Char) (q : Query) (items : List ListedItem)
    (more : List Token) (v : Workspace Query) : Prop where
  faces : v.cursor.Faces more
  draft : v.draft =
    { q.listing rule text items with selectListStop := v.cursor.current.start }

theorem StopsEarly.append {c : Cursor} (h : StopsEarly (us ++ ts) c) : StopsEarly ts c := by
  obtain ⟨vs, hvs, hc, hcomma⟩ := h
  refine ⟨vs ++ us, by simp [hvs], by simpa using hc, ?_⟩
  rwa [frontType_append hvs]

/-- With an item left the reader is not behind the list. -/
theorem StopsEarly.not_faces {c : Cursor} (h : StopsEarly ts c) : ¬c.Faces ts := by
  obtain ⟨vs, hvs, hc, hfront⟩ := h
  obtain ⟨t, vs, rfl⟩ := List.exists_cons_of_ne_nil hvs
  intro hts
  have hsame := hc.unique (fun hend => hfront (by simp [hend])) hts
  have hlength : ts.length = (t :: vs ++ ts).length := congrArg List.length hsame
  rw [List.length_append, List.length_cons] at hlength
  omega

/-- What holds between two items of a list. -/
theorem itemRule_listed (q : Query) (items : List ListedItem) (more : List Token) :
    ItemRule (.symbol .comma) (fun item ts => item.Spells d ts ∧ item ∈ items) (addItem rule)
      (fun ts => endsOperand ts = true ∧ frontType ts ∉ aliasStarts)
      (fun before (_ : List Unit) w => Arrived d sql w.cursor ∧ (∀ i ∈ before, i.IsRead) ∧
        w.draft = q.listing rule sql.toList before)
      (fun v => (¬∀ i ∈ items, i.IsRead) ∧ StopsEarly more v.cursor) (fun _ => False) more where
  read := by
    rintro item ts us before - w ⟨hs, hmem⟩ ⟨hm, halias⟩ hw ⟨hc, hbefore, hdraft⟩
    unfold addItem
    apply (achieves_listed hs hc hm halias hw).bind
    rintro i v (⟨hread, hv⟩ | ⟨hnot, hv⟩)
    · refine settles_modified (Or.inl ⟨hv.passes, hc.reaches hv.reaches, ?_, ?_⟩)
      · intro j hj
        rw [List.mem_append, List.mem_singleton] at hj
        exact hj.elim (hbefore j) fun hj => hj ▸ hread
      · rw [Query.listing_append, ← hdraft, ← hc.text]
        exact hv.draft
    · exact settles_modified (Or.inr ⟨fun h => hnot (h item hmem), hv.append⟩)
  skip := by
    rintro ts before - w v hv ⟨hc, hbefore, hdraft⟩
    exact ⟨hc.reaches (.single hv.advance), hbefore, hv.draft.trans hdraft⟩
  follow := by
    rintro s xs ts us hs - -
    exact ⟨endsOperand_comma hs, by simp [hs, aliasStarts]⟩
  stuck := by
    rintro v ⟨-, vs, hvs, hv, hcomma⟩
    rw [hv.isAtAny, frontType_append hvs]
    simp only [List.mem_cons, not_or] at hcomma
    simpa using hcomma.1

variable {items : List ListedItem} {c : Cursor}

/-- A list is cut into its items exactly if all of them are read up to their ends. -/
theorem select_list_cut_iff (hc : Arrived d sql c)
    (hs : Joined (.symbol .comma) (ListedItem.Spells d) items ts) (hw : c.Passes ts more)
    (hm : EndsList more) (q : Query) : ∃ v, selectList rule ⟨c, q⟩ = .ok () v ∧
      (CutInto rule sql.toList q items more v ↔ ∀ i ∈ items, i.IsRead) := by
  obtain ⟨hend, hfront⟩ := hm
  simp only [List.mem_cons, not_or] at hfront
  have hjoined := hs.mono fun item us hmem hspells => And.intro hspells hmem
  have hp : c.Passes (ts ++ []) more := by rwa [List.append_nil]
  have hstart : Arrived d sql c ∧ (∀ i ∈ ([] : List ListedItem), i.IsRead) ∧
      q = q.listing rule sql.toList [] := ⟨hc, by simp, by rw [Query.listing_nil]⟩
  have hfollows : endsOperand ([] ++ more) = true ∧ frontType ([] ++ more) ∉ aliasStarts :=
    ⟨hend, hfront.2⟩
  have hitems : Achieves ⟨c, q⟩ (commaSeparated (addItem rule)) _ :=
    (itemRule_listed q items more).separated hfollows hfront.1 hjoined hp hstart
  have hlist : Achieves ⟨c, q⟩ (selectList rule) fun _ v =>
      CutInto rule sql.toList q items more v ↔ ∀ i ∈ items, i.IsRead := by
    rw [selectList_eq]
    apply hitems.discard.bind
    intro _ v hv
    apply settles_current.2
    apply settles_modified
    rcases hv with ⟨hv, -, hread, hdraft⟩ | ⟨hnot, hv⟩
    · exact iff_of_true ⟨hv.faces, by rw [hdraft]⟩ hread
    · exact iff_of_false (fun hcut => hv.not_faces hcut.faces) hnot
  obtain ⟨_, v, hrun, hv⟩ := hlist.run
  exact ⟨v, hrun, hv⟩

theorem select_list_cut_iff_chain : ∃ c v, Arrived .mysql "t.*, MAX((x)) m, t.a-2+f(?) AS n FROM t" c ∧
    selectList ⟨[("t", ⟨[], none⟩)], none⟩ ⟨c, {}⟩ = .ok () v ∧
    v.cursor.isAt (.keyword .FROM) = true ∧
    v.draft =
      { findings := { kind := .dql, edits := [.table 0 "t", .table 17 "t"], placeholders := 1 }
        items := [.star (some "t"), .aggregation ⟨.max, "((x))", some "m", []⟩,
          .common "t.a-2+f(?)" (some "n")]
        selectListStop := 33 } := by
  have htokens : (TokenStream.ofText .mysql "t.*, MAX((x)) m, t.a-2+f(?) AS n FROM t".toList).tokens =
      [⟨.literal .identifier, "t", 0, 1⟩, ⟨.symbol .dot, ".", 1, 2⟩, ⟨.symbol .star, "*", 2, 3⟩,
        ⟨.symbol .comma, ",", 3, 4⟩, ⟨.keyword .MAX, "MAX", 5, 8⟩, ⟨.symbol .leftParen, "(", 8, 9⟩,
        ⟨.symbol .leftParen, "(", 9, 10⟩, ⟨.literal .identifier, "x", 10, 11⟩,
        ⟨.symbol .rightParen, ")", 11, 12⟩, ⟨.symbol .rightParen, ")", 12, 13⟩,
        ⟨.literal .identifier, "m", 14, 15⟩, ⟨.symbol .comma, ",", 15, 16⟩,
        ⟨.literal .identifier, "t", 17, 18⟩, ⟨.symbol .dot, ".", 18, 19⟩,
        ⟨.literal .identifier, "a", 19, 20⟩, ⟨.literal .int, "-2", 20, 22⟩,
        ⟨.symbol .plus, "+", 22, 23⟩, ⟨.literal .identifier, "f", 23, 24⟩,
        ⟨.symbol .leftParen, "(", 24, 25⟩, ⟨.symbol .question, "?", 25, 26⟩,
        ⟨.symbol .rightParen, ")", 26, 27⟩, ⟨.keyword .AS, "AS", 28, 30⟩,
        ⟨.literal .identifier, "n", 31, 32⟩, ⟨.keyword .FROM, "FROM", 33, 37⟩,
        ⟨.literal .identifier, "t", 38, 39⟩] := by decide +kernel
  obtain ⟨c, hc, hfaces⟩ := Cursor.ofText_first htokens
  have hmax : Closes 0 ([⟨.symbol .leftParen, "(", 9, 10⟩, ⟨.literal .identifier, "x", 10, 11⟩,
      ⟨.symbol .rightParen, ")", 11, 12⟩] ++ [⟨.symbol .rightParen, ")", 12, 13⟩]) :=
    .deeper rfl (.token (by simp) (by simp) (by simp) (.close rfl (.last rfl)))
  have hcall : Closes 0 [⟨.symbol .question, "?", 25, 26⟩, ⟨.symbol .rightParen, ")", 26, 27⟩] :=
    .token (by simp) (by simp) (by simp) (.last rfl)
  have hsteps : ItemSteps (⟨.literal .int, "-2", 20, 22⟩ :: ⟨.symbol .plus, "+", 22, 23⟩ ::
      ([⟨.literal .identifier, "f", 23, 24⟩, ⟨.symbol .leftParen, "(", 24, 25⟩,
        ⟨.symbol .question, "?", 25, 26⟩, ⟨.symbol .rightParen, ")", 26, 27⟩] ++ [])) :=
    .negative (by decide) (.operator (by decide) (.operand (.call (by simp) rfl hcall) (by simp)) .nil)
  have howner : ∀ place, BeginsOperand .mysql ⟨.literal .identifier, "t", place, place + 1⟩ := by
    intro place
    exact ⟨by simp, by simp [keywordTypes]⟩
  have hstar : ListedItem.Spells .mysql (.ownedStar ⟨.literal .identifier, "t", 0, 1⟩
      ⟨.symbol .dot, ".", 1, 2⟩ ⟨.symbol .star, "*", 2, 3⟩) _ := .ownedStar (howner 0) rfl rfl
  have haggregate : ListedItem.Spells .mysql (.aggregate .max ⟨.keyword .MAX, "MAX", 5, 8⟩
      ⟨.symbol .leftParen, "(", 8, 9⟩ _ ⟨.symbol .rightParen, ")", 12, 13⟩ []
      [⟨.literal .identifier, "m", 14, 15⟩]) _ := .aggregate rfl rfl hmax .nil (.alone (by decide))
  have hchain : ListedItem.Spells .mysql (.chain (.member ⟨.literal .identifier, "t", 17, 18⟩
      ⟨.symbol .dot, ".", 18, 19⟩ ⟨.literal .identifier, "a", 19, 20⟩) _
      [⟨.keyword .AS, "AS", 28, 30⟩, ⟨.literal .identifier, "n", 31, 32⟩]) _ :=
    .chain (.member (howner 17) rfl (by decide)) hsteps (by simp) (.word rfl rfl)
  have hlist := Joined.cons hstar (s := ⟨.symbol .comma, ",", 3, 4⟩) rfl
    (.cons haggregate (s := ⟨.symbol .comma, ",", 15, 16⟩) rfl (.single hchain))
  have hend : EndsList [⟨.keyword .FROM, "FROM", 33, 37⟩, ⟨.literal .identifier, "t", 38, 39⟩] :=
    endsList_of_keyword (Or.inr ⟨.FROM, by simp, rfl⟩)
  have hstart : Arrived .mysql "t.*, MAX((x)) m, t.a-2+f(?) AS n FROM t" c := ⟨c, hc, .refl c⟩
  obtain ⟨v, hrun, hiff⟩ :=
    select_list_cut_iff hstart hlist (hfaces.passes (by simp)) hend {}
  have hcut := hiff.2 (by simp [ListedItem.IsRead, FirstOperand.IsRead])
  refine ⟨c, v, hstart, hrun, by rw [hcut.faces.isAt]; rfl, ?_⟩
  rw [hcut.draft, hcut.faces.current]
  rfl

theorem selectList_of_view {α : Type} (d : Dialect) (rule : ShardingRule) (sql : String)
    (view : Workspace Query → α) (a : α)
    (h : (do
      let c ← (Cursor.ofText d sql).advance.toOption
      match selectList rule ⟨c, {}⟩ with
      | .ok _ v => some (view v)
      | .error _ _ => none) = some a) :
    ∃ c v, (Cursor.ofText d sql).advance = .ok c ∧ selectList rule ⟨c, {}⟩ = .ok () v ∧ view v = a := by
  obtain ⟨c, hc, h⟩ := Option.bind_eq_some_iff.1 h
  split at h
  · next v hrun =>
    cases hadvance : (Cursor.ofText d sql).advance with
    | error fault => simp [hadvance, Except.toOption] at hc
    | ok c' =>
      obtain rfl : c' = c := by simpa [hadvance, Except.toOption] using hc
      exact ⟨c', v, rfl, hrun, Option.some.inj h⟩
  · cases h

/-- Behind the call of an aggregate function an operator ends the list, and behind a call with an
owner its parenthesis does. -/
theorem chains_left_unfinished :
    (∃ c v, Arrived .mysql "COUNT(status)+1 FROM t_order" c ∧
      selectList ⟨[], none⟩ ⟨c, {}⟩ = .ok () v ∧
      v.cursor.current = ⟨.symbol .plus, "+", 13, 14⟩ ∧ v.draft.selectListStop = 13 ∧
      v.draft.items.map SelectItem.expression = ["COUNT(status)"]) ∧
    ∃ c v, Arrived .mysql "s.f(a) FROM t_order" c ∧
      selectList ⟨[], none⟩ ⟨c, {}⟩ = .ok () v ∧
      v.cursor.current = ⟨.symbol .leftParen, "(", 3, 4⟩ ∧ v.draft.selectListStop = 3 ∧
      v.draft.items.map SelectItem.expression = ["s.f"] := by
  constructor
  · obtain ⟨c, v, hc, hrun, hview⟩ := selectList_of_view .mysql ⟨[], none⟩
      "COUNT(status)+1 FROM t_order"
      (fun v => (v.cursor.current, v.draft.selectListStop, v.draft.items.map SelectItem.expression))
      (⟨.symbol .plus, "+", 13, 14⟩, 13, ["COUNT(status)"])
      (by decide +kernel)
    simp only [Prod.mk.injEq] at hview
    exact ⟨c, v, ⟨c, hc, .refl c⟩, hrun, hview⟩
  · obtain ⟨c, v, hc, hrun, hview⟩ := selectList_of_view .mysql ⟨[], none⟩ "s.f(a) FROM t_order"
      (fun v => (v.cursor.current, v.draft.selectListStop, v.draft.items.map SelectItem.expression))
      (⟨.symbol .leftParen, "(", 3, 4⟩, 3, ["s.f"]) (by decide +kernel)
    simp only [Prod.mk.injEq] at hview
    exact ⟨c, v, ⟨c, hc, .refl c⟩, hrun, hview⟩

end SqlFront

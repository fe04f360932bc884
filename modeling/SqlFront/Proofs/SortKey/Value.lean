import SqlFront.Proofs.Derived.Call
import SqlFront.Proofs.Insertion.Value
import SqlFront.Proofs.Parser.Loop

/-!
# What whole tokens are read as

The reader of expressions moves past a whole value, and what it answers is determined by the tokens
of the value. In the other direction, what it has moved past is a whole value wherever more tokens
follow; at the end of the text an operand or a closing parenthesis may be missing.
-/

set_option autoImplicit false

namespace SqlFront

open SqlFront.Parser SqlFront.Clause

variable {t o : Token} {ts us all rest more : List Token}

/-! ## Values -/

def placeBehind (p : ℕ) (ts : List Token) : ℕ := ts.foldl (fun _ t => t.stop) p

theorem placeBehind_append {p : ℕ} : placeBehind p (ts ++ us) = placeBehind (placeBehind p ts) us :=
  List.foldl_append

theorem placeBehind_concat {p : ℕ} : placeBehind p (ts ++ [t]) = t.stop := placeBehind_append

def sourceOf (text : List Char) (ts : List Token) : Expression :=
  .raw (trimmed (slice text (ts.head?.elim 0 Token.start) (placeBehind 0 ts)))

def wholeValue (text : List Char) (n : ℕ) : List Token → Expression
  | [t] => operandValue n t
  | [t, d, m] =>
    if t.type ≠ .symbol .leftParen ∧ d.type = .symbol .dot then .property t.literals m.literals
    else sourceOf text [t, d, m]
  | ts => sourceOf text ts

theorem wholeValue_member {text : List Char} {n : ℕ} {d m : Token} (ht : t.type ≠ .symbol .leftParen)
    (hd : d.type = .symbol .dot) :
    wholeValue text n [t, d, m] = .property t.literals m.literals := if_pos ⟨ht, hd⟩

theorem wholeValue_text {text : List Char} {n : ℕ} (hlen : 1 < ts.length)
    (hmember : ∀ t d m, ts = [t, d, m] → t.type = .symbol .leftParen ∨ d.type ≠ .symbol .dot) :
    wholeValue text n ts = sourceOf text ts := by
  match ts with
  | [] | [_] => simp at hlen
  | [_, _] => rfl
  | [t, d, m] =>
    apply if_neg
    rintro ⟨ht, hd⟩
    exact (hmember t d m rfl).elim ht fun h => h hd
  | _ :: _ :: _ :: _ :: _ => rfl

/-! ## The way of a reader -/

namespace Cursor

variable {c c' c₁ : Cursor} {Kind Kind' : List Token → Prop}

def Takes (c : Cursor) (all : List Token) (Kind : List Token → Prop) (c' : Cursor) : Prop :=
  ∃ rest, c'.Faces rest ∧ (rest ≠ [] → ∃ ts, all = ts ++ rest ∧ c.Walk ts c' ∧ Kind ts)

theorem Walk.text (h : c.Walk ts c') : c'.text = c.text := h.reaches.text

theorem Walk.head (h : c.Walk (t :: ts) c') : t = c.current := by
  cases h
  rfl

theorem Walk.eq_of_nil (h : c.Walk [] c') : c' = c := by
  cases h
  rfl

theorem Walk.previousStop (h : c.Walk ts c') : c'.previousStop = placeBehind c.previousStop ts := by
  induction h with
  | refl => rfl
  | step ha _ ih =>
    obtain ⟨t, -, rfl⟩ := advance_ok.1 ha
    exact ih

theorem Takes.refl (hc : c.Faces all) (h : Kind []) : c.Takes all Kind c :=
  ⟨all, hc, fun _ => ⟨[], rfl, .refl c, h⟩⟩

theorem Takes.single (hc : c.Faces all) (ha : c.advance = .ok c') :
    c.Takes all (fun ts => ts = [c.current]) c' := by
  cases all with
  | nil => exact ⟨[], hc.advance_nil ha, fun h => (h rfl).elim⟩
  | cons t all =>
    exact ⟨all, hc.advance ha, fun _ => ⟨[c.current], by rw [hc.current]; rfl, .single ha, rfl⟩⟩

theorem Takes.mono (h : c.Takes all Kind c') (hk : ∀ ts, c.Walk ts c' → Kind ts → Kind' ts) :
    c.Takes all Kind' c' := by
  obtain ⟨rest, hrest, h⟩ := h
  refine ⟨rest, hrest, fun hne => ?_⟩
  obtain ⟨ts, hall, hwalk, hts⟩ := h hne
  exact ⟨ts, hall, hwalk, hk ts hwalk hts⟩

/-- One way behind another. -/
theorem Takes.trans {K : List Token → Prop} (h : c.Takes all Kind c₁)
    (h' : ∀ mid, mid <:+ all → c₁.Faces mid → c₁.Takes mid K c')
    (hk : ∀ us vs, Kind us → c₁.Walk vs c' → K vs → Kind' (us ++ vs)) :
    c.Takes all Kind' c' := by
  obtain ⟨mid, hmid, h⟩ := h
  have hsuffix : mid <:+ all := by
    cases hm : mid with
    | nil => exact List.nil_suffix
    | cons =>
      obtain ⟨ts, hall, -⟩ := h (by simp [hm])
      exact hm ▸ ⟨ts, hall.symm⟩
  obtain ⟨rest, hrest, h'⟩ := h' mid hsuffix hmid
  refine ⟨rest, hrest, fun hne => ?_⟩
  obtain ⟨vs, hvs, hwalk', hkind'⟩ := h' hne
  obtain ⟨us, hall, hwalk, hkind⟩ := h (by simp [hvs, hne])
  exact ⟨us ++ vs, by rw [hall, hvs, List.append_assoc], hwalk.append hwalk',
    hk us vs hkind hwalk' hkind'⟩

end Cursor

/-! ## Readers of operands -/

section Taking

variable {w v : Workspace Findings} {e : Expression}

inductive IsGroup : List Token → Prop
  | intro {l : Token} {us : List Token} : l.type = .symbol .leftParen → Closes 0 us →
      IsGroup (l :: us)

def Inner (ts : List Token) : Prop := ∀ t ∈ ts, t.type ≠ .endOfText

theorem Inner.suffix (h : Inner all) (hts : ts <:+ all) : Inner ts := fun t ht => h t (hts.subset ht)

theorem skipParentheses_takes {s : String} (hall : Inner all) (hw : w.cursor.Faces all)
    (hat : w.cursor.isAt (.symbol .leftParen) = true) (h : skipParentheses w = .ok s v) :
    w.cursor.Takes all IsGroup v.cursor := by
  rw [skipParentheses_eq] at h
  obtain ⟨b, _, hb, h⟩ := bind_ok.1 h
  obtain ⟨rfl, rfl⟩ := isAt_ok.1 hb
  rw [hat, if_pos rfl] at h
  obtain ⟨l, _, hl, h⟩ := bind_ok.1 h
  obtain ⟨rfl, rfl⟩ := current_ok.1 hl
  obtain ⟨_, _, ha, h⟩ := bind_ok.1 h
  obtain ⟨c, hc, rfl⟩ := advance_ok.1 ha
  -- From the depth reached the tokens behind close what the first parenthesis opens.
  refine repeatFrom_induct (I := fun n x => w.cursor.Takes all
      (fun ts => ∃ us, ts = w.cursor.current :: us ∧ ∀ ks, Closes n ks → Closes 0 (us ++ ks)) x.cursor)
    (Q := fun _ x => w.cursor.Takes all IsGroup x.cursor) ?_ ?_ ?_ h
  · rintro n n' x y ⟨mid, hmid, hx⟩ hstep
    cases mid with
    | nil => cases (skipNested_atEnd hmid hstep).2
    | cons t mid =>
      obtain ⟨ts, rfl, hwalk, us, rfl, hopen⟩ := hx (by simp)
      have ht : t.type ≠ .endOfText := hall t (by simp)
      obtain ⟨ha, ⟨-, hy⟩ | ⟨m, hy, hm⟩⟩ := skipNested_run hmid ht hstep
      · cases hy
      · obtain rfl := Sum.inl.inj hy
        refine ⟨mid, hmid.advance ha, fun _ => ⟨w.cursor.current :: (us ++ [t]), by simp, ?_,
          us ++ [t], rfl, fun ks hks => ?_⟩⟩
        · exact hwalk.append (hmid.current ▸ .single ha)
        · rw [List.append_assoc]
          exact hopen _ (hm ks hks)
  · rintro n s x y ⟨mid, hmid, hx⟩ hstep
    cases mid with
    | nil =>
      obtain ⟨rfl, -⟩ := skipNested_atEnd hmid hstep
      exact ⟨[], hmid, fun h => (h rfl).elim⟩
    | cons t mid =>
      obtain ⟨ts, rfl, hwalk, us, rfl, hopen⟩ := hx (by simp)
      have ht : t.type ≠ .endOfText := hall t (by simp)
      obtain ⟨ha, ⟨hclosed, -⟩ | ⟨m, hy, -⟩⟩ := skipNested_run hmid ht hstep
      · refine ⟨mid, hmid.advance ha, fun _ => ⟨w.cursor.current :: (us ++ [t]), by simp, ?_, ?_⟩⟩
        · exact hwalk.append (hmid.current ▸ .single ha)
        · exact .intro (Cursor.isAt_iff.1 hat) (hopen _ hclosed)
      · cases hy
  · exact (Cursor.Takes.single hw hc).mono fun ts _ hts => ⟨[], hts, fun ks hks => hks⟩

theorem skipParentheses_stays {s : String} (hat : w.cursor.isAt (.symbol .leftParen) = false)
    (h : skipParentheses w = .ok s v) : v = w := (achieves_noParentheses hat).property h

theorem callRest_takes {c : Cursor} {s : String} (hall : Inner all) (hc : c.Faces all)
    (hat : c.isAt (.symbol .leftParen) = false) (ha : c.advance = .ok w.cursor)
    (h : skipParentheses w = .ok s v) : c.Takes all Operand v.cursor := by
  have hleft : c.current.type ≠ .symbol .leftParen := by
    intro hl
    rw [Cursor.isAt_iff.2 hl] at hat
    cases hat
  refine (Cursor.Takes.single hc ha).trans (K := fun ts => ts = [] ∨ IsGroup ts) ?_ ?_
  · intro mid hmid hfaces
    cases hparen : w.cursor.isAt (.symbol .leftParen) with
    | true =>
      exact (skipParentheses_takes (hall.suffix hmid) hfaces hparen h).mono fun _ _ h => Or.inr h
    | false =>
      obtain rfl := skipParentheses_stays hparen h
      exact .refl hfaces (Or.inl rfl)
  · rintro _ vs rfl - (rfl | ⟨hl, hus⟩)
    · exact .token hleft
    · exact .call hleft hl hus

theorem skipOperand_takes {u : Unit} (hall : Inner all) (hw : w.cursor.Faces all)
    (h : skipOperand w = .ok u v) : w.cursor.Takes all Operand v.cursor := by
  have operand : ∀ {x : Workspace Findings}, x.cursor = w.cursor → (do
      if ← isAt (.symbol .leftParen) then
        let _ ← skipParentheses
      else
        advance
        let _ ← skipParentheses : Parser Findings Unit) x = .ok u v →
      w.cursor.Takes all Operand v.cursor := by
    intro x hx h
    obtain ⟨b, _, hb, h⟩ := bind_ok.1 h
    obtain ⟨hat, rfl⟩ := isAt_ok.1 hb
    cases b with
    | true =>
      obtain ⟨s, _, hs, h⟩ := bind_ok.1 h
      obtain ⟨-, rfl⟩ := pure_ok.1 h
      have hgroup := skipParentheses_takes hall (hx ▸ hw) hat hs
      rw [hx] at hgroup
      refine hgroup.mono ?_
      rintro ts - ⟨hl, hus⟩
      exact .group hl hus
    | false =>
      obtain ⟨_, y, ha, h⟩ := bind_ok.1 h
      obtain ⟨c, hc, rfl⟩ := advance_ok.1 ha
      obtain ⟨s, _, hs, h⟩ := bind_ok.1 h
      obtain ⟨-, rfl⟩ := pure_ok.1 h
      have hcall := callRest_takes hall (hx ▸ hw) hat hc hs
      rwa [hx] at hcall
  obtain ⟨b, _, hb, h⟩ := bind_ok.1 h
  obtain ⟨-, rfl⟩ := isAt_ok.1 hb
  cases b with
  | true =>
    obtain ⟨_, x, hcount, h⟩ := bind_ok.1 h
    obtain ⟨-, rfl⟩ := countPlaceholder_ok.1 hcount
    refine operand ?_ h
    rfl
  | false => exact operand rfl h

theorem Chained.snoc (h : Chained ts) (ho : o.type ∈ operators) (hus : Operand us) :
    Chained (ts ++ o :: us) := by
  induction h with
  | nil => simpa using Chained.cons ho hus .nil
  | cons ho' hus' _ ih =>
    rw [List.cons_append, List.append_assoc]
    exact .cons ho' hus' ih

theorem skipOperations_takes {u : Unit} (hall : Inner all) (hw : w.cursor.Faces all)
    (h : skipOperations w = .ok u v) :
    w.cursor.Takes all Chained v.cursor ∧ v.cursor.current.type ∉ operators := by
  -- By induction on the turns: each takes one more operator with its operand.
  refine whileM_induct (I := fun x => w.cursor.Takes all Chained x.cursor)
    (Q := fun x => w.cursor.Takes all Chained x.cursor ∧ x.cursor.current.type ∉ operators)
    ?_ ?_ (.refl hw .nil) h
  · intro x y z u hx hcond hbody
    obtain ⟨hat, c, hc, rfl⟩ := skipIf_ok.1 hcond
    have ho := Cursor.isAtAny_iff.1 hat
    refine hx.trans (K := fun ts => ∃ us, ts = x.cursor.current :: us ∧ Operand us) ?_ ?_
    · intro mid hmid hfaces
      refine (Cursor.Takes.single hfaces hc).trans (fun mid' hmid' hfaces' =>
        skipOperand_takes (hall.suffix (hmid'.trans hmid)) hfaces' hbody) ?_
      rintro _ vs rfl - hvs
      exact ⟨vs, rfl, hvs⟩
    · rintro us _ hus - ⟨vs, rfl, hvs⟩
      exact hus.snoc ho hvs
  · intro x y hx hcond
    obtain ⟨hat, rfl⟩ := skipIf_ok.1 hcond
    rw [← Bool.not_eq_true, Cursor.isAtAny_iff] at hat
    exact ⟨hx, hat⟩

theorem skipContinuation_takes {b : Bool} (hall : Inner all) (hw : w.cursor.Faces all)
    (h : skipContinuation w = .ok b v) :
    w.cursor.Takes all (fun ts => Continued ts ∧ (ts = [] ↔ b = false)) v.cursor := by
  obtain ⟨at?, _, hop, h⟩ := bind_ok.1 h
  obtain ⟨hat, rfl⟩ := isAtAny_ok.1 hop
  cases at? with
  | true =>
    obtain ⟨_, x, hops, h⟩ := bind_ok.1 h
    obtain ⟨rfl, rfl⟩ := pure_ok.1 h
    obtain ⟨htakes, hstop⟩ := skipOperations_takes hall hw hops
    refine htakes.mono fun ts hwalk hts => ⟨.chain hts, ?_⟩
    simp only [Bool.true_eq_false, iff_false]
    rintro rfl
    rw [hwalk.eq_of_nil] at hstop
    exact hstop (Cursor.isAtAny_iff.1 hat)
  | false =>
    obtain ⟨t, _, ht, h⟩ := bind_ok.1 h
    obtain ⟨rfl, rfl⟩ := current_ok.1 ht
    split at h
    · next hneg =>
      obtain ⟨_, _, ha, h⟩ := bind_ok.1 h
      obtain ⟨c, hc, rfl⟩ := advance_ok.1 ha
      obtain ⟨rfl, rfl⟩ := pure_ok.1 h
      refine (Cursor.Takes.single hw hc).mono ?_
      rintro _ - rfl
      exact ⟨.negative hneg, by simp⟩
    · obtain ⟨rfl, rfl⟩ := pure_ok.1 h
      exact .refl hw ⟨.chain .nil, by simp⟩

theorem raw_eq_sourceOf {c c' : Cursor} (h : c.Walk ts c') (hne : ts ≠ []) :
    Expression.raw (trimmed (c'.slice c.current.start c'.previousStop)) =
      sourceOf c.text ts := by
  obtain ⟨t, ts, rfl⟩ := List.exists_cons_of_ne_nil hne
  rw [sourceOf, Cursor.slice, h.text, h.previousStop, ← h.head]
  rfl

theorem primary_eq (h : primary w = .ok e v) :
    v.cursor = w.cursor ∧ e = operandValue w.draft.placeholders w.cursor.current := by
  obtain ⟨b, _, hb, h⟩ := bind_ok.1 h
  obtain ⟨hat, rfl⟩ := isAt_ok.1 hb
  cases b with
  | true =>
    obtain ⟨n, _, hn, h⟩ := bind_ok.1 h
    obtain ⟨rfl, rfl⟩ := countPlaceholder_ok.1 hn
    obtain ⟨rfl, rfl⟩ := pure_ok.1 h
    exact ⟨rfl, (if_pos (Cursor.isAt_iff.1 hat)).symm⟩
  | false =>
    obtain ⟨t, _, ht, h⟩ := bind_ok.1 h
    obtain ⟨rfl, rfl⟩ := current_ok.1 ht
    obtain ⟨rfl, rfl⟩ := pure_ok.1 h
    refine ⟨rfl, (if_neg fun hq => ?_).symm⟩
    rw [Cursor.isAt_iff.2 hq] at hat
    cases hat

theorem parenthesized_takes {c : Cursor} {before : List Token} (hall : Inner all)
    (hbefore : c.Takes all (fun ts => ts = before) w.cursor)
    (hat : w.cursor.isAt (.symbol .leftParen) = true)
    (h : (do let _ ← skipParentheses; skipOperations; rawFrom c.current.start :
      Parser Findings Expression) w = .ok e v) :
    c.Takes all (fun ts => ∃ l us vs, ts = before ++ l :: (us ++ vs) ∧
      l.type = .symbol .leftParen ∧ Closes 0 us ∧ Chained vs ∧ e = sourceOf c.text ts)
      v.cursor := by
  obtain ⟨s, x, hs, h⟩ := bind_ok.1 h
  obtain ⟨_, y, hops, h⟩ := bind_ok.1 h
  obtain ⟨rfl, rfl⟩ := rawFrom_ok.1 h
  have hgroup : c.Takes all (fun ts => ∃ us, ts = before ++ us ∧ IsGroup us) x.cursor := by
    refine hbefore.trans (fun mid hmid hfaces =>
      skipParentheses_takes (hall.suffix hmid) hfaces hat hs) ?_
    rintro _ us rfl - hus
    exact ⟨us, rfl, hus⟩
  have hchain : c.Takes all (fun ts => ∃ us vs, ts = before ++ us ++ vs ∧ IsGroup us ∧ Chained vs)
      v.cursor := by
    refine hgroup.trans (fun mid hmid hfaces =>
      (skipOperations_takes (hall.suffix hmid) hfaces hops).1) ?_
    rintro _ vs ⟨us, rfl, hus⟩ - hvs
    exact ⟨us, vs, rfl, hus, hvs⟩
  refine hchain.mono ?_
  rintro _ hwalk ⟨_, vs, rfl, ⟨hl, hus⟩, hvs⟩
  exact ⟨_, _, vs, by simp, hl, hus, hvs, raw_eq_sourceOf hwalk (by simp)⟩

theorem continued_takes {c : Cursor} {before : List Token} {b : Bool} (hall : Inner all)
    (hbefore : c.Takes all (fun ts => ts = before) w.cursor)
    (h : skipContinuation w = .ok b v) :
    c.Takes all (fun ts => ∃ us, ts = before ++ us ∧ Continued us ∧ (us = [] ↔ b = false) ∧
      ∀ u ∈ us.head?, u = w.cursor.current) v.cursor := by
  refine hbefore.trans (fun mid hmid hfaces =>
    skipContinuation_takes (hall.suffix hmid) hfaces h) ?_
  rintro _ us rfl hwalk ⟨hus, hnil⟩
  refine ⟨us, rfl, hus, hnil, ?_⟩
  cases us with
  | nil => simp
  | cons u us => simpa using hwalk.head

theorem member_takes {c d : Cursor} {n : ℕ} (hall : Inner all) (hc : c.Faces all)
    (hleft : c.current.type ≠ .symbol .leftParen) (ha : c.advance = .ok d)
    (hdot : d.current.type = .symbol .dot) (hd : d.advance = .ok w.cursor)
    (h : (do
      let name := (← current).literals
      advance
      if ← skipContinuation then rawFrom c.current.start
      else return .property c.current.literals name : Parser Findings Expression) w = .ok e v) :
    c.Takes all (fun ts => Whole ts ∧ e = wholeValue c.text n ts) v.cursor := by
  obtain ⟨m, _, hm, h⟩ := bind_ok.1 h
  obtain ⟨rfl, rfl⟩ := current_ok.1 hm
  obtain ⟨_, x, hstep, h⟩ := bind_ok.1 h
  obtain ⟨c', hc', rfl⟩ := advance_ok.1 hstep
  obtain ⟨b, y, hcont, h⟩ := bind_ok.1 h
  have howner : c.Takes all (fun ts => ts = [c.current, d.current]) w.cursor := by
    refine (Cursor.Takes.single hc ha).trans (fun mid _ hfaces => .single hfaces hd) ?_
    rintro _ _ rfl - rfl
    rfl
  have hmember : c.Takes all (fun ts => ts = [c.current, d.current, w.cursor.current]) c' := by
    refine howner.trans (fun mid _ hfaces => .single hfaces hc') ?_
    rintro _ _ rfl - rfl
    rfl
  have htakes := continued_takes hall hmember hcont
  cases b with
  | true =>
    obtain ⟨rfl, rfl⟩ := rawFrom_ok.1 h
    refine htakes.mono ?_
    rintro _ hwalk ⟨us, rfl, hus, hne, -⟩
    refine ⟨.member hleft hdot hus, ?_⟩
    have hpos : us ≠ [] := by simpa using hne
    rw [raw_eq_sourceOf hwalk (by simp), wholeValue_text (by simp)]
    rintro t d m heq
    simp only [List.cons_append, List.nil_append, List.cons.injEq] at heq
    exact (hpos heq.2.2.2).elim
  | false =>
    obtain ⟨rfl, rfl⟩ := pure_ok.1 h
    refine htakes.mono ?_
    rintro _ - ⟨us, rfl, hus, hnil, -⟩
    obtain rfl := hnil.2 rfl
    exact ⟨.member hleft hdot hus, (wholeValue_member hleft hdot).symm⟩

theorem word_takes {c : Cursor} {e₀ : Expression} {n : ℕ} (hall : Inner all) (hc : c.Faces all)
    (hleft : c.current.type ≠ .symbol .leftParen) (ha : c.advance = .ok w.cursor)
    (hdot : w.cursor.current.type ≠ .symbol .dot) (he : e₀ = operandValue n c.current)
    (h : (do if ← skipContinuation then rawFrom c.current.start else return e₀ :
      Parser Findings Expression) w = .ok e v) :
    c.Takes all (fun ts => Whole ts ∧ e = wholeValue c.text n ts) v.cursor := by
  obtain ⟨b, x, hcont, h⟩ := bind_ok.1 h
  have htakes := continued_takes hall (.single hc ha) hcont
  have hfront : ∀ {us : List Token}, (∀ u ∈ us.head?, u = w.cursor.current) →
      frontType us ≠ .symbol .dot := by
    intro us hus
    cases us with
    | nil => simp
    | cons u us =>
      rw [frontType_cons, hus u rfl]
      exact hdot
  cases b with
  | true =>
    obtain ⟨rfl, rfl⟩ := rawFrom_ok.1 h
    refine htakes.mono ?_
    rintro _ hwalk ⟨us, rfl, hus, hne, hhead⟩
    refine ⟨.word hleft (hfront hhead) hus, ?_⟩
    have hpos : 0 < us.length := List.length_pos_iff.2 (by simpa using hne)
    rw [raw_eq_sourceOf hwalk (by simp), wholeValue_text (by simpa using hpos)]
    rintro t d m heq
    obtain ⟨-, rfl⟩ := List.cons.inj heq
    exact Or.inr (hfront hhead)
  | false =>
    obtain ⟨rfl, rfl⟩ := pure_ok.1 h
    refine htakes.mono ?_
    rintro _ - ⟨us, rfl, hus, hnil, hhead⟩
    obtain rfl := hnil.2 rfl
    exact ⟨.word hleft (hfront hhead) hus, he⟩

theorem operandChain_takes (hall : Inner all) (hw : w.cursor.Faces all)
    (h : operandChain w = .ok e v) : w.cursor.Takes all
      (fun ts => Whole ts ∧ e = wholeValue w.cursor.text w.draft.placeholders ts) v.cursor := by
  rw [operandChain_eq] at h
  obtain ⟨t, _, ht, h⟩ := bind_ok.1 h
  obtain ⟨rfl, rfl⟩ := current_ok.1 ht
  obtain ⟨b, _, hb, h⟩ := bind_ok.1 h
  obtain ⟨hat, rfl⟩ := isAt_ok.1 hb
  cases b with
  | true =>
    have hnone : w.cursor.Takes all (fun ts => ts = []) w.cursor := .refl hw rfl
    refine (parenthesized_takes hall hnone hat h).mono ?_
    rintro _ - ⟨l, us, vs, rfl, hl, hus, hvs, rfl⟩
    have hlen : 1 < (l :: (us ++ vs)).length := by cases hus <;> simp
    refine ⟨.group hl hus hvs, (wholeValue_text hlen ?_).symm⟩
    rintro t d m heq
    obtain ⟨rfl, -⟩ := List.cons.inj heq
    exact Or.inl hl
  | false =>
    obtain ⟨e₀, x, he, h⟩ := bind_ok.1 h
    obtain ⟨_, y, ha, h⟩ := bind_ok.1 h
    obtain ⟨c, hc, rfl⟩ := advance_ok.1 ha
    obtain ⟨hx, hvalue⟩ := primary_eq he
    rw [hx] at hc
    have hleft : w.cursor.current.type ≠ .symbol .leftParen := by
      rwa [← Bool.not_eq_true, Cursor.isAt_iff] at hat
    obtain ⟨dot, y, hdot, h⟩ := bind_ok.1 h
    obtain ⟨hatDot, hy⟩ := skipIf_ok.1 hdot
    rw [Cursor.isAtAny_singleton] at hatDot
    cases dot with
    | true =>
      obtain ⟨d, hd, rfl⟩ := hy
      exact member_takes hall hw hleft hc (Cursor.isAt_iff.1 hatDot) hd h
    | false =>
      obtain rfl := hy
      rw [← Bool.not_eq_true, Cursor.isAt_iff] at hatDot
      obtain ⟨paren, _, hisAt, h⟩ := bind_ok.1 h
      obtain ⟨hparen, rfl⟩ := isAt_ok.1 hisAt
      cases paren with
      | true =>
        refine (parenthesized_takes hall (.single hw hc) hparen h).mono ?_
        rintro _ - ⟨l, us, vs, rfl, hl, hus, hvs, rfl⟩
        refine ⟨.call hleft hl hus hvs, (wholeValue_text (by simp) ?_).symm⟩
        rintro t d m heq
        simp only [List.cons_append, List.nil_append, List.cons.injEq] at heq
        exact Or.inr (by simp [← heq.2.1, hl])
      | false => exact word_takes hall hw hleft hc hatDot hvalue h

end Taking

end SqlFront

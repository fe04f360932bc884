import SqlFront.Proofs.Condition.Formula
import SqlFront.Proofs.Parser.Loop
import SqlFront.Proofs.Progress.Table
import SqlFront.Proofs.Table.JoinCondition
import SqlFront.Proofs.Table.Single

/-!
# Tables with aliases and hints

A table is a name, which may have an alias and hints on its indexes. The table that comes first and
those behind commas are recorded where one table is allowed; a table that is joined is recorded
only if the rule has a place for it.
-/

set_option autoImplicit false

namespace SqlFront

open SqlFront.Parser SqlFront.Clause

variable {d : Dialect} {rule : ShardingRule} {w v x : Workspace Findings} {name t : Token}
  {ts us more : List Token}

/-! ## Names and aliases -/

inductive SpellsAlias : List Token → Prop
  | none : SpellsAlias []
  | alone {t : Token} : t.type ∈ [TokenType.literal .identifier, .literal .chars] → SpellsAlias [t]
  | word {a t : Token} : a.type = .keyword .AS → t.type.isSymbol = false → SpellsAlias [a, t]

inductive SpellsHintScope : List Token → Prop
  | all : SpellsHintScope []
  | join {f t : Token} : f.type = .keyword .FOR → SpellsHintScope [f, t]
  | order {f t b : Token} : f.type = .keyword .FOR → b.type = .keyword .BY →
      SpellsHintScope [f, t, b]

inductive SpellsHints : List Token → Prop
  | nil : SpellsHints []
  | cons {u k l : Token} {fs is ts : List Token} : u.type ∈ hintWords →
      k.type ∈ keywordTypes [.INDEX, .KEY] → SpellsHintScope fs → l.type = .symbol .leftParen →
      Closes 0 is → SpellsHints ts → SpellsHints (u :: k :: (fs ++ l :: (is ++ ts)))

inductive SpellsFactor (d : Dialect) (name : Token) : List Token → Prop
  | intro {as hs : List Token} : name.isName = true → SpellsAlias as → SpellsHints hs →
      (hs ≠ [] → d.grammar.indexHints = true) → SpellsFactor d name (name :: (as ++ hs))

def aliasStarts : List TokenType := [.keyword .AS, .literal .identifier, .literal .chars]

def factorStarts : List TokenType := .symbol .dot :: aliasStarts ++ hintWords

theorem SpellsAlias.front (h : SpellsAlias ts) : ts = [] ∨ frontType (ts ++ us) ∈ aliasStarts := by
  cases h with
  | none => exact Or.inl rfl
  | alone ht => exact Or.inr (List.mem_cons_of_mem _ ht)
  | word ha => exact Or.inr (by simp [aliasStarts, ha])

theorem SpellsHints.front (h : SpellsHints ts) : ts = [] ∨ frontType (ts ++ us) ∈ hintWords := by
  cases h with
  | nil => exact Or.inl rfl
  | cons hu => exact Or.inr hu

theorem SpellsHints.not_alias (h : SpellsHints ts) (hus : frontType us ∉ factorStarts) :
    frontType (ts ++ us) ∉ aliasStarts := by
  have hapart : ∀ x ∈ hintWords, x ∉ aliasStarts := by decide
  rcases @SpellsHints.front ts us h with rfl | hfront
  · intro halias
    apply hus
    simp only [factorStarts, List.cons_append, List.mem_cons, List.mem_append]
    exact Or.inr (Or.inl halias)
  · exact hapart _ hfront

theorem not_dot_behind (ha : SpellsAlias ts) {hs : List Token} (hh : SpellsHints hs)
    (hus : frontType us ∉ factorStarts) : frontType (ts ++ (hs ++ us)) ≠ .symbol .dot := by
  have haliases : TokenType.symbol .dot ∉ aliasStarts := by decide
  have hhints : TokenType.symbol .dot ∉ hintWords := by decide
  intro hdot
  rcases @SpellsAlias.front ts (hs ++ us) ha with rfl | hfront
  · rcases @SpellsHints.front hs us hh with rfl | hfront
    · apply hus
      have hdot' : frontType us = .symbol .dot := hdot
      rw [hdot']
      exact List.mem_cons_self
    · have hdot' : frontType (hs ++ us) = .symbol .dot := hdot
      exact hhints (hdot' ▸ hfront)
  · exact haliases (hdot ▸ hfront)

theorem achieves_tableToken (hw : w.cursor.Passes (name :: ts) more)
    (hdot : frontType (ts ++ more) ≠ .symbol .dot) :
    Achieves w tableToken fun t v => t = name ∧ Past w ts more v := by
  unfold tableToken
  apply settles_current.2
  rw [hw.current]
  apply (achieves_advance hw).bind
  intro _ v hv
  apply settles_isAt.2
  rw [hv.passes.isAt, beq_eq_false_iff_ne.2 hdot]
  exact Settles.pure ⟨rfl, hv⟩

def aliasName (ts : List Token) : Option String := ts.getLast?.map fun t => unquoted t.literals

section Aliases

variable {σ : Type} {w : Workspace σ}

theorem achieves_nameHere (hw : w.cursor.Passes (t :: ts) more) :
    Achieves w nameHere fun name v => name = unquoted t.literals ∧ Past w ts more v := by
  unfold nameHere
  apply settles_current.2
  apply (achieves_advance hw).bind
  intro _ v hv
  exact Settles.pure ⟨by rw [hw.current], hv⟩

theorem achieves_alias (hs : SpellsAlias ts) (hus : frontType (us ++ more) ∉ aliasStarts)
    (hw : w.cursor.Passes (ts ++ us) more) :
    Achieves w alias? fun name? v => name? = aliasName ts ∧ w.cursor.Walk ts v.cursor ∧
      v.cursor.Passes us more ∧ v.draft = w.draft := by
  simp only [aliasStarts, List.mem_cons, List.not_mem_nil, or_false, not_or] at hus
  unfold alias?
  cases hs with
  | none =>
    apply settles_noSkip hw (by simpa using hus.1)
    rw [if_neg (by simp)]
    apply settles_isAtAny.2
    rw [hw.isAtAny, List.contains_eq_mem, decide_eq_false (by simpa using hus.2),
      if_neg (by simp)]
    exact Settles.pure ⟨rfl, .refl _, hw, rfl⟩
  | @alone t ht =>
    apply settles_noSkip hw
    · simp only [List.cons_append, frontType_cons, List.mem_cons, List.not_mem_nil, or_false] at ht ⊢
      rcases ht with ht | ht <;> simp [ht]
    rw [if_neg (by simp)]
    apply settles_isAtAny.2
    have hat : w.cursor.isAtAny [.literal .identifier, .literal .chars] = true := by
      rw [Cursor.isAtAny_iff, hw.type]
      exact ht
    rw [hat, if_pos rfl]
    apply (achieves_nameHere hw).bind
    rintro _ v ⟨rfl, hv⟩
    exact Settles.pure ⟨rfl, hv.walk hw, hv.passes, hv.draft⟩
  | @word a t ha ht =>
    apply settles_skipIf hw (by simp [ha])
    intro v hv
    rw [if_pos rfl]
    apply settles_current.2
    rw [hv.passes.current, ht, if_neg (by simp)]
    apply (achieves_nameHere hv.passes).bind
    rintro _ v₁ ⟨rfl, h₁⟩
    have hwalk : w.cursor.Walk ([a] ++ [t]) v₁.cursor := (hv.walk hw).append (h₁.walk hv.passes)
    exact Settles.pure ⟨rfl, hwalk, h₁.passes, by rw [h₁.draft, hv.draft]⟩

end Aliases

/-! ## Hints -/

def indexHint : Parser Findings Unit := do
  let _ ← skipIf (keywordTypes [.INDEX, .KEY])
  if ← skipKeyword .FOR then
    advance
    let _ ← skipKeyword .BY
  let _ ← skipParentheses

theorem achieves_indexHint {k l : Token} {fs is : List Token}
    (hk : k.type ∈ keywordTypes [.INDEX, .KEY]) (hf : SpellsHintScope fs)
    (hl : l.type = .symbol .leftParen) (his : Closes 0 is)
    (hw : w.cursor.Passes (k :: (fs ++ l :: (is ++ us))) more) :
    Achieves w indexHint fun _ v => v.cursor.Passes us more ∧
      v.draft.tables = w.draft.tables := by
  have hlist : ∀ v : Workspace Findings, v.cursor.Passes (l :: (is ++ us)) more →
      v.draft = w.draft → Achieves v (do
        let _ ← skipParentheses) fun (_ : Unit) x => x.cursor.Passes us more ∧
          x.draft.tables = w.draft.tables := by
    intro v hv hd
    apply (achieves_skipParentheses hl his hv).bind
    rintro _ x ⟨-, hx, hcount⟩
    exact Settles.pure ⟨hx, by rw [hcount.collects.tables, hd]⟩
  unfold indexHint
  apply settles_skipIf hw hk
  intro v₁ h₁
  cases hf with
  | all =>
    apply settles_noSkip h₁.passes (by simp [hl])
    rw [if_neg (by simp)]
    exact hlist v₁ h₁.passes h₁.draft
  | @join f t hf =>
    apply settles_skipIf h₁.passes (by simp [hf])
    intro v₂ h₂
    rw [if_pos rfl]
    apply (achieves_advance h₂.passes).bind
    intro _ v₃ h₃
    apply settles_noSkip h₃.passes (by simp [hl])
    exact hlist v₃ h₃.passes (by rw [h₃.draft, h₂.draft, h₁.draft])
  | @order f t b hf hb =>
    apply settles_skipIf h₁.passes (by simp [hf])
    intro v₂ h₂
    rw [if_pos rfl]
    apply (achieves_advance h₂.passes).bind
    intro _ v₃ h₃
    apply settles_skipIf h₃.passes (by simp [hb])
    intro v₄ h₄
    exact hlist v₄ h₄.passes (by rw [h₄.draft, h₃.draft, h₂.draft, h₁.draft])

theorem skipIndexHints_eq : skipIndexHints = (do
    if (← grammar).indexHints then whileM (skipIf hintWords) indexHint) := rfl

theorem achieves_skipIndexHints (hs : SpellsHints ts)
    (hd : ts ≠ [] → w.cursor.dialect.grammar.indexHints = true)
    (hus : frontType (us ++ more) ∉ factorStarts) (hw : w.cursor.Passes (ts ++ us) more) :
    Achieves w skipIndexHints fun _ v => v.cursor.Passes us more ∧
      v.draft.tables = w.draft.tables := by
  have hstop : frontType (us ++ more) ∉ hintWords := by
    intro h
    apply hus
    simp [factorStarts, h]
  have hturns : ∀ k, ts.length < k →
      Achieves w (repeatFor (whileTurn (skipIf hintWords) indexHint) k ())
        fun _ v => v.cursor.Passes us more ∧ v.draft.tables = w.draft.tables := by
    clear hd
    intro k hk
    -- By induction on the hints.
    induction hs generalizing w k with
    | nil =>
      obtain ⟨k, rfl⟩ := Nat.exists_eq_add_of_lt hk
      exact settles_lastTurn (achieves_noSkip (hw.type ▸ hstop)) ⟨hw, rfl⟩
    | @cons u i l fs is ts hu hi hf hl his hts ih =>
      obtain ⟨k, rfl⟩ := Nat.exists_eq_add_of_lt hk
      apply settles_turn (achieves_skip hw hu)
      intro v hv
      have hp : v.cursor.Passes (i :: (fs ++ l :: (is ++ (ts ++ us)))) more := by
        simpa using hv.passes
      apply (achieves_indexHint hi hf hl his hp).settles.mono
      rintro _ y ⟨hy, hd⟩
      simp only [List.length_cons, List.length_append]
      apply (ih hy _ (by omega)).mono
      rintro _ z ⟨hz, hdz⟩
      exact ⟨hz, by rw [hdz, hd, hv.draft]⟩
  rw [skipIndexHints_eq]
  apply settles_grammar.2
  by_cases hnil : ts = []
  · subst hnil
    split
    · exact hturns _ (Nat.succ_pos _)
    · exact Settles.pure ⟨hw, rfl⟩
  · rw [if_pos (hd hnil)]
    have hmoves := hw.length_lt_moves
    rw [List.length_append] at hmoves
    exact hturns _ (by omega)

/-! ## The table -/

theorem achieves_tableFactor_tables {single : Bool} {as hs : List Token} (has : SpellsAlias as)
    (hhints : SpellsHints hs) (hd : hs ≠ [] → w.cursor.dialect.grammar.indexHints = true)
    (hus : frontType (us ++ more) ∉ factorStarts)
    (hw : w.cursor.Passes (name :: (as ++ (hs ++ us))) more) :
    Achieves w (tableFactor rule single) fun _ v => v.cursor.Passes us more ∧
      v.draft.tables =
        if single || rule.containsTable (unquoted name.literals) || rule.hasDefault then
          w.draft.tables.add ⟨unquoted name.literals, aliasName as⟩
        else w.draft.tables := by
  have hdot := @not_dot_behind as (us ++ more) has hs hhints hus
  have halias := hhints.not_alias hus
  unfold tableFactor
  apply (achieves_tableToken hw (by simpa using hdot)).bind
  rintro t v ⟨rfl, hv⟩
  apply (achieves_alias has (by simpa using halias) hv.passes).bind
  rintro alias? x ⟨rfl, hwalk, hx, hxd⟩
  have hgrammar : hs ≠ [] → x.cursor.dialect.grammar.indexHints = true := by
    rw [hwalk.reaches.dialect, Cursor.advance_dialect hv.advance]
    exact hd
  have htables : x.draft.tables = w.draft.tables := by rw [hxd, hv.draft]
  have hskip : ∀ f : Findings, Achieves ⟨x.cursor, f⟩ skipIndexHints fun _ y =>
      y.cursor.Passes us more ∧ y.draft.tables = f.tables := fun f =>
    achieves_skipIndexHints (w := ⟨x.cursor, f⟩) hhints hgrammar hus hx
  simp only
  split
  · apply settles_modifyDraft.2
    apply (hskip _).mono
    rintro _ y ⟨hy, hyt⟩
    refine ⟨hy, hyt.trans ?_⟩
    rw [← htables]
    rfl
  · apply (hskip x.draft).mono
    rintro _ y ⟨hy, hyt⟩
    exact ⟨hy, hyt.trans htables⟩

theorem achieves_tableFactor {single : Bool} (hs : SpellsFactor w.cursor.dialect name ts)
    (hus : frontType (us ++ more) ∉ factorStarts) (hw : w.cursor.Passes (ts ++ us) more) :
    Achieves w (tableFactor rule single) fun _ v => v.cursor.Passes us more ∧
      v.cursor.dialect = w.cursor.dialect ∧ ∀ n, v.draft.tables.containsName n = true ↔
        w.draft.tables.containsName n = true ∨
          ((single || rule.containsTable (unquoted name.literals) || rule.hasDefault) = true ∧
            sameName (unquoted name.literals) n = true) := by
  obtain @⟨as, hs, -, has, hhints, hd⟩ := hs
  have hp : w.cursor.Passes (name :: (as ++ (hs ++ us))) more := by simpa using hw
  have hreach : ∀ {u v}, tableFactor rule single w = .ok u v →
      v.cursor.dialect = w.cursor.dialect := fun h =>
    (tableFactor_progress (N := fun _ => True) (T := True) (C := True) trivial trivial h).reaches.dialect
  apply (achieves_tableFactor_tables has hhints hd hus hp).withRun.mono
  rintro _ v ⟨⟨hv, htables⟩, h⟩
  refine ⟨hv, hreach h, fun n => ?_⟩
  rw [htables]
  split
  · next hrecorded => rw [Tables.containsName_add, hrecorded, eq_self, true_and]
  · next hrecorded => simp [hrecorded]

end SqlFront

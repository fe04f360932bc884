import SqlFront.Proofs.Derived.Staging
import SqlFront.Proofs.Selection.Level
import SqlFront.Proofs.Selection.Tail

/-!
# Modifiers in front of a select list

ALL and DISTINCT are looked for in one place, right behind SELECT, and the options of the dialect
are skipped behind it. Where DISTINCT stands behind an option, it is read as the first item of the
select list.
-/

set_option autoImplicit false

namespace SqlFront

open SqlFront.Parser SqlFront.Clause SqlFront.Reading

variable {d : Dialect} {rule : ShardingRule} {catalog : Catalog} {sql : String} {c c' : Cursor}
  {w w' : Workspace Query} {k l : Keyword} {ks ms : List Keyword} {before : Option Char}

def distinctWords (d : Dialect) : List Keyword := .DISTINCT :: d.grammar.distinctSynonyms

def modifiers (d : Dialect) : List Keyword := .ALL :: (d.grammar.selectOptions ++ distinctWords d)

inductive DistinctFirst (d : Dialect) : List Keyword → Prop
  | first {k : Keyword} {ms : List Keyword} : k ∈ distinctWords d → DistinctFirst d (k :: ms)
  | behindAll {k : Keyword} {ms : List Keyword} : k ∈ distinctWords d →
      DistinctFirst d (.ALL :: k :: ms)

/-! ## Refusal -/

def Cursor.Opens (c : Cursor) (ks : List Keyword) : Prop :=
  keywordTypes ks <+: c.rest.map Token.type

theorem Cursor.Opens.type (h : c.Opens (k :: ks)) : c.current.type = .keyword k := by
  obtain ⟨us, hus⟩ := h
  exact (List.cons.inj hus).1.symm

theorem Cursor.Opens.advance (h : c.Opens (k :: l :: ks)) (hc : c.advance = .ok c') :
    c'.Opens (l :: ks) := by
  have hahead : keywordTypes (l :: ks) <+: c.ahead.tokens.map Token.type :=
    (List.cons_prefix_cons.1 h).2
  rcases Cursor.advance_rest hc with hr | ⟨hnil, -⟩
  · have htail : c'.rest = c.ahead.tokens := (List.cons.inj hr).2.symm
    rwa [Cursor.Opens, htail]
  · rw [hnil] at hahead
    simp [keywordTypes] at hahead

theorem Cursor.opens_ofText
    (h : keywordTypes (k :: ks) <+: (TokenStream.ofText d sql.toList).tokens.map Token.type) :
    ∃ c, (Cursor.ofText d sql).advance = .ok c ∧ c.Opens (k :: ks) := by
  cases hts : (TokenStream.ofText d sql.toList).tokens with
  | nil =>
    rw [hts] at h
    simp [keywordTypes] at h
  | cons t ts =>
    obtain ⟨c, hc, hfaces⟩ := Cursor.ofText_first hts
    refine ⟨c, hc, ?_⟩
    unfold Cursor.Opens
    rwa [hfaces.rest_cons, ← hts]

theorem distinctWords_ne_all : ∀ k ∈ distinctWords d, k ≠ .ALL := by
  cases d <;> decide

theorem distinctClause_refuses {u : Unit} (h : w.cursor.Opens ms)
    (hfirst : DistinctFirst w.cursor.dialect ms) : distinctClause w ≠ .ok u w' := by
  intro hd
  obtain ⟨b, v, hskip, hd⟩ := bind_ok.1 hd
  obtain ⟨g, _, hg, hrefuse⟩ := bind_ok.1 hd
  obtain ⟨rfl, rfl⟩ := grammar_ok.1 hg
  have hnot := (refuseIf_ok.1 hrefuse).1
  obtain ⟨hat, hv⟩ := skipIf_ok.1 hskip
  rw [← Bool.not_eq_true, Cursor.isAtAny_iff] at hnot
  cases hfirst with
  | @first k ms hk =>
    have hall : w.cursor.isAtAny [.keyword .ALL] = false := by
      rw [Cursor.isAtAny, h.type]
      simpa using distinctWords_ne_all k hk
    obtain rfl := hat.symm.trans hall
    obtain rfl := hv
    exact hnot (h.type ▸ List.mem_map_of_mem hk)
  | @behindAll k ms hk =>
    have hall : w.cursor.isAtAny [.keyword .ALL] = true := by
      rw [Cursor.isAtAny, h.type]
      simp
    obtain rfl := hat.symm.trans hall
    obtain ⟨c, hc, rfl⟩ := hv
    rw [(h.advance hc).type, Cursor.advance_dialect hc] at hnot
    exact hnot (List.mem_map_of_mem hk)

theorem queryHead_refuses {u : Unit} (h : w.cursor.Opens (.SELECT :: ms))
    (hfirst : DistinctFirst w.cursor.dialect ms) : queryHead rule w ≠ .ok u w' := by
  intro hread
  obtain ⟨_, v, hadvance, hread⟩ := bind_ok.1 hread
  obtain ⟨c, hc, rfl⟩ := advance_ok.1 hadvance
  obtain ⟨_, v, hdistinct, -⟩ := bind_ok.1 hread
  have hopens : c.Opens ms := by
    cases hfirst <;> exact h.advance hc
  exact distinctClause_refuses hopens (Cursor.advance_dialect hc ▸ hfirst) hdistinct

/-- A text with a query that begins like this is not accepted. -/
theorem distinctFirst_refused (hw : QueryAt d rule sql w) (h : w.cursor.Opens (.SELECT :: ms))
    (hfirst : DistinctFirst d ms) : ∃ fault, parse d rule catalog sql = .error fault := by
  cases hp : parse d rule catalog sql with
  | error fault => exact ⟨fault, rfl⟩
  | ok s =>
    obtain ⟨n, inner, v, hread⟩ := hw.read hp
    cases n with
    | zero => exact (throw_ok.1 hread).elim
    | succ n =>
      obtain ⟨_, v, hhead, -⟩ := bind_ok.1 hread
      have hdialect : w.cursor.dialect = d := hw.reaches.dialect
      exact (queryHead_refuses h (hdialect ▸ hfirst) hhead).elim

/-! ## Words and a name -/

def beforeName : List Keyword → List Char
  | [] => "status".toList
  | k :: ks => k.spelling.toList ++ ' ' :: beforeName ks

theorem modifier_word : ∀ k ∈ .SELECT :: modifiers d,
    (k.spelling.toList.all Character.isWord = true ∧
      Character.isLetter (charAt k.spelling.toList 0) = true ∧ 1 < k.spelling.toList.length) ∧
    Lexeme.needsBy k.spelling = false ∧ d.keyword? k.spelling = some k := by
  cases d <;> decide +kernel

theorem spells_beforeName {ws : List (TokenType × String)}
    (h : ∀ k ∈ ks, k ∈ .SELECT :: modifiers d) : Spells d before (beforeName ks) ws ↔
      ws = ks.map (fun k => (.keyword k, k.spelling)) ++ [(.literal .identifier, "status")] := by
  induction ks generalizing before ws with
  | nil =>
    have hbare : IsBare "status".toList := ⟨by decide, by decide, by decide⟩
    have hword : Lexeme.wordType d "status" [] = .literal .identifier := by
      cases d <;> decide +kernel
    have hsplit : beforeName [] = "status".toList ++ [] := rfl
    rw [hsplit, Spells.bare_iff hbare (by decide), String.ofList_toList, hword]
    simp [Spells.nil_iff]
  | cons k ks ih =>
    obtain ⟨⟨hall, hletter, hlong⟩, hby, hkeyword⟩ := modifier_word k (h k List.mem_cons_self)
    have hrest : ∀ l ∈ ks, l ∈ .SELECT :: modifiers d := fun l hl => h l (List.mem_cons_of_mem k hl)
    have hword : ∀ rest, Lexeme.wordType d k.spelling rest = .keyword k := by
      intro rest
      rw [Lexeme.wordType, hby, hkeyword]
      rfl
    have hblank : Character.isBlank (charAt (beforeName ks) 0) = false := by
      cases ks with
      | nil => decide
      | cons l ks =>
        obtain ⟨⟨-, hletter, hlong⟩, -⟩ := modifier_word l (hrest l List.mem_cons_self)
        unfold beforeName
        rw [charAt_append (by omega)]
        exact Character.isBlank_of_isLetter hletter
    unfold beforeName
    rw [Spells.bare_iff ⟨hall, hletter, hlong⟩ (by rfl), String.ofList_toList, hword]
    simp only [Spells.space_iff hblank, ih hrest]
    constructor
    · rintro ⟨_, rfl, rfl⟩
      rfl
    · rintro rfl
      exact ⟨_, rfl, rfl⟩

def nameTypes (ks : List Keyword) : List TokenType := keywordTypes ks ++ [.literal .identifier]

theorem beforeName_tokens (h : ∀ k ∈ ks, k ∈ .SELECT :: modifiers d) :
    (TokenStream.ofText d (beforeName ks)).tokens.map Token.type = nameTypes ks ∧
      ∃ e, (TokenStream.ofText d (beforeName ks)).ending = .ok e := by
  have hspells : Spells d none (beforeName ks) _ := (spells_beforeName h).2 rfl
  obtain ⟨hws, hend⟩ := (TokenStream.scan_spells (Nat.le_refl _)).1 hspells
  refine ⟨?_, hend⟩
  have htypes := congrArg (List.map Prod.fst) hws
  rwa [List.map_map, List.map_append, List.map_map] at htypes

/-! ## Acceptance -/

structure InFrontOf (d : Dialect) (ms : List Keyword) (c : Cursor) : Prop where
  dialect : c.dialect = d
  known : ∀ m ∈ ms, m ∈ modifiers d
  distinct : ∃ m ∈ ms, m ∈ distinctWords d
  passes : ∃ ts, ts.map Token.type = nameTypes ms ∧ c.Passes ts []

def plainTypes (d : Dialect) : List TokenType := nameTypes (modifiers d)

theorem InFrontOf.front (h : InFrontOf d (k :: ms) c) : c.current.type = .keyword k := by
  obtain ⟨ts, hts, hp⟩ := h.passes
  cases ts with
  | nil => simp [nameTypes] at hts
  | cons t ts => exact hp.current ▸ (List.cons.inj hts).1

/-- Behind a word that is not DISTINCT the others are left. -/
theorem InFrontOf.skip {σ : Type} {w : Workspace σ} {xs : List TokenType}
    (h : InFrontOf d (k :: ms) w.cursor) (hk : k ∉ distinctWords d) (hxs : .keyword k ∈ xs) :
    Achieves w (skipIf xs) fun b v => b = true ∧ InFrontOf d ms v.cursor := by
  obtain ⟨ts, hts, hp⟩ := h.passes
  cases ts with
  | nil => simp [nameTypes] at hts
  | cons t ts =>
    obtain ⟨ht, hts⟩ := List.cons.inj hts
    apply (achieves_skip hp (ht ▸ hxs)).mono
    rintro b v ⟨rfl, hv⟩
    refine ⟨rfl, Cursor.advance_dialect hv.advance ▸ h.dialect,
      fun m hm => h.known m (List.mem_cons_of_mem k hm), ?_, ts, hts, hv.passes⟩
    obtain ⟨m, hm, hdistinct⟩ := h.distinct
    rcases List.mem_cons.1 hm with rfl | hm
    · exact (hk hdistinct).elim
    · exact ⟨m, hm, hdistinct⟩

theorem InFrontOf.exists_cons (h : InFrontOf d ms c) : ∃ k ks, ms = k :: ks := by
  obtain ⟨m, hm, -⟩ := h.distinct
  exact List.exists_cons_of_ne_nil (List.ne_nil_of_mem hm)

theorem InFrontOf.noRefusal (h : InFrontOf d (k :: ms) w.cursor) (hk : k ∉ distinctWords d) :
    Achieves w (do refuseIf (keywordTypes (.DISTINCT :: (← grammar).distinctSynonyms)))
      fun _ v => ∃ ks, InFrontOf d ks v.cursor := by
  apply settles_grammar.2
  have hat : w.cursor.isAtAny
      (keywordTypes (.DISTINCT :: w.cursor.dialect.grammar.distinctSynonyms)) = false := by
    rw [← Bool.not_eq_true, Cursor.isAtAny_iff, h.front, h.dialect]
    rintro hmem
    obtain ⟨l, hl, heq⟩ := List.mem_map.1 hmem
    exact hk (TokenType.keyword.inj heq ▸ hl)
  exact (settles_of_ok (a := ()) (refuseIf_ok.2 ⟨hat, rfl⟩)).2 ⟨_, h⟩

theorem achieves_distinctBehind (h : InFrontOf d ms w.cursor) (hfirst : ¬DistinctFirst d ms) :
    Achieves w distinctClause fun _ v => ∃ ks, InFrontOf d ks v.cursor := by
  obtain ⟨k, ms, rfl⟩ := h.exists_cons
  have hk : k ∉ distinctWords d := fun hk => hfirst (.first hk)
  unfold distinctClause
  by_cases hall : k = .ALL
  · subst hall
    apply (h.skip hk (by simp)).bind
    rintro _ v ⟨-, hv⟩
    obtain ⟨l, ms, rfl⟩ := hv.exists_cons
    exact hv.noRefusal fun hl => hfirst (.behindAll hl)
  · apply settles_notAt (by simpa [h.front] using hall)
    exact h.noRefusal hk

theorem options_not_distinct : ∀ k ∈ d.grammar.selectOptions, k ∉ distinctWords d := by
  cases d <;> decide

theorem achieves_options (h : InFrontOf d ms w.cursor) :
    Achieves w (skipAll (keywordTypes d.grammar.selectOptions))
      fun _ v => ∃ ks, InFrontOf d ks v.cursor := by
  have hturns : ∀ n, ms.length < n → Achieves w
      (repeatFor (whileTurn (skipIf (keywordTypes d.grammar.selectOptions)) (return ())) n ())
      fun _ v => ∃ ks, InFrontOf d ks v.cursor := by
    intro n hn
    -- By induction on the words in front.
    induction ms generalizing w n with
    | nil => exact absurd h.exists_cons (by simp)
    | cons k ms ih =>
      obtain ⟨n, rfl⟩ := Nat.exists_eq_add_of_lt hn
      by_cases hk : k ∈ d.grammar.selectOptions
      · apply settles_turn (h.skip (options_not_distinct k hk) (List.mem_map_of_mem hk))
        intro v hv
        exact Settles.pure (ih hv _ (by rw [List.length_cons]; omega))
      · refine settles_lastTurn (achieves_noSkip ?_) ⟨_, h⟩
        rw [h.front]
        simpa [keywordTypes] using hk
  obtain ⟨ts, hts, hp⟩ := h.passes
  have hlength := congrArg List.length hts
  have hmoves := hp.length_lt_moves
  simp only [List.length_map, nameTypes, keywordTypes, List.length_append] at hlength
  exact hturns _ (by omega)

theorem plainTypes_fit : ∀ t ∈ plainTypes d, t ∉ Part.bounds ∧
    t ∉ [.symbol .dot, TokenType.keyword .AS] ∧ t ∉ operators ∧
    t ∉ keywordTypes d.grammar.beforeSelectItem ∧ t ≠ .keyword .TOP := by
  cases d <;> decide

theorem InFrontOf.types {ts : List Token} (h : InFrontOf d ms c)
    (hts : ts.map Token.type = nameTypes ms) : ∀ t ∈ ts, t.type ∈ plainTypes d := by
  intro t ht
  have hmem : t.type ∈ nameTypes ms := hts ▸ List.mem_map_of_mem ht
  rcases List.mem_append.1 hmem with hmem | hmem
  · obtain ⟨m, hm, heq⟩ := List.mem_map.1 hmem
    exact List.mem_append_left _ (heq ▸ List.mem_map_of_mem (h.known m hm))
  · exact List.mem_append_right _ hmem

theorem InFrontOf.noTop (h : InFrontOf d ms w.cursor) :
    Achieves w topClause fun _ v => v = w := by
  obtain ⟨ts, hts, hp⟩ := h.passes
  apply achieves_noTop hp
  intro _
  rw [List.append_nil]
  cases ts with
  | nil => simp
  | cons t ts => exact (plainTypes_fit t.type (h.types hts t List.mem_cons_self)).2.2.2.2

theorem achieves_wordItem (h : InFrontOf d ms w.cursor) :
    Achieves w (selectList rule) fun _ v =>
      v.cursor.dialect = d ∧ v.cursor.current.type ∈ .endOfText :: plainTypes d := by
  obtain ⟨ts, hts, hp⟩ := h.passes
  have hfit := fun t ht => plainTypes_fit t.type (h.types hts t ht)
  have htokens : tokensOf (ts.map Part.word) = ts := by
    simp [tokensOf, List.flatMap_map, Part.tokens]
  have hne : ts ≠ [] := by
    rintro rfl
    simp [nameTypes] at hts
  have hspells : WrittenItem.Spells w.cursor.dialect (.parts (ts.map Part.word)) ts := by
    have hwords : ∀ t, Part.word t ∈ ts.map Part.word → t ∈ ts := by simp
    have hbefore : frontType ts ∉ keywordTypes w.cursor.dialect.grammar.beforeSelectItem := by
      obtain ⟨t, us, rfl⟩ := List.exists_cons_of_ne_nil hne
      exact h.dialect ▸ (hfit t List.mem_cons_self).2.2.2.1
    conv => rhs; rw [← htokens]
    refine .parts (by simpa using hne) (.of_fits ?_ fun t ht => ?_) (Or.inl (.of_last ?_)) ?_ ?_
    · intro p hmem
      obtain ⟨t, ht, rfl⟩ := List.mem_map.1 hmem
      exact .word (hfit t ht).1
    · exact (hfit t (hwords t ht)).2.1
    · intro t ht
      exact (hfit t (hwords t (List.mem_of_getLast? ht))).2.2.1
    · cases ts <;> rfl
    · rwa [htokens]
  have hp' : w.cursor.Passes (ts ++ []) [] := by simpa using hp
  have hlist : Achieves w (selectList rule) _ :=
    achieves_listTo (.single hspells) rfl (by decide) (by decide) hp'
  apply hlist.withRun.mono
  rintro _ v ⟨-, hrun⟩
  have hread : QueryProgress (fun _ => True) True True w v := selectList_progress rule hrun
  refine ⟨hread.found.reaches.dialect.trans h.dialect, ?_⟩
  have hfaces : w.cursor.Faces ts := by simpa using hp.faces
  obtain ⟨us, hus, hv⟩ := hfaces.reaches hread.found.reaches
  have hat : v.cursor.current.type = frontType us := hv.type
  rw [hat]
  cases us with
  | nil => exact List.mem_cons_self
  | cons u us => exact List.mem_cons_of_mem _ (h.types hts u (hus.subset List.mem_cons_self))

theorem achieves_modifiedOpening {t : Token} {ts : List Token} (hd : w.cursor.dialect = d)
    (hknown : ∀ m ∈ ms, m ∈ modifiers d) (hdistinct : ∃ m ∈ ms, m ∈ distinctWords d)
    (hfirst : ¬DistinctFirst d ms) (hts : ts.map Token.type = nameTypes ms)
    (hw : w.cursor.Passes (t :: ts) []) : Achieves w (selectOpening rule) fun _ v =>
      v.cursor.dialect = d ∧ v.cursor.current.type ∈ .endOfText :: plainTypes d := by
  unfold selectOpening
  apply (achieves_advance hw).bind
  intro _ v hv
  have hdialect : v.cursor.dialect = d := (Cursor.advance_dialect hv.advance).trans hd
  apply (achieves_distinctBehind ⟨hdialect, hknown, hdistinct, ts, hts, hv.passes⟩ hfirst).bind
  rintro _ x ⟨ks, hx⟩
  apply settles_grammar.2
  rw [hx.dialect]
  apply (achieves_options hx).bind
  rintro _ y ⟨ls, hy⟩
  apply hy.noTop.bind
  rintro _ z rfl
  exact achieves_wordItem hy

/-! ## Behind the select list -/

def clauseWords (d : Dialect) : List Keyword :=
  [.INTO, .FROM, .WHERE, .GROUP, .HAVING, .ORDER, .LIMIT, .OFFSET] ++ d.grammar.setOperations

def Cursor.AtNoClause (c : Cursor) : Prop := c.current.type ∉ keywordTypes (clauseWords c.dialect)

section Behind

variable {σ : Type} {v : Workspace σ}

theorem Cursor.AtNoClause.notAt (h : c.AtNoClause) (ks : List Keyword)
    (hks : ∀ k ∈ ks, k ∈ clauseWords c.dialect) : c.current.type ∉ keywordTypes ks := by
  intro hat
  obtain ⟨k, hk, heq⟩ := List.mem_map.1 hat
  exact h (heq ▸ List.mem_map_of_mem (hks k hk))

theorem achieves_notRefused (h : v.cursor.AtNoClause) (ks : List Keyword)
    (hks : ∀ k ∈ ks, k ∈ clauseWords v.cursor.dialect) :
    Achieves v (refuseIf (keywordTypes ks)) fun _ x => x = v := by
  have hat : v.cursor.isAtAny (keywordTypes ks) = false := by
    rw [← Bool.not_eq_true, Cursor.isAtAny_iff]
    exact h.notAt ks hks
  exact (settles_of_ok (a := ()) (refuseIf_ok.2 ⟨hat, rfl⟩)).2 rfl

theorem achieves_noFrom {sub : Parser Query (List Query)} (h : w.cursor.AtNoClause) :
    Achieves w (fromClause rule sub) fun _ v => v = w := by
  unfold fromClause
  exact settles_notAt (h.notAt [.FROM] (by simp [clauseWords])) (Settles.pure rfl)

theorem achieves_noWhere (h : w.cursor.AtNoClause) :
    Achieves w (onFindings (whereClause rule)) fun _ v => v = w := by
  apply settles_onFindings.2
  unfold whereClause
  refine settles_notAt (h.notAt [.WHERE] (by simp [clauseWords])) (Settles.pure rfl)

theorem achieves_noLimit (h : w.cursor.AtNoClause) : Achieves w limitClause fun _ v => v = w := by
  have hnone : ∀ comma, Achieves w (onFindings (limitAndOffset comma)) fun limit v =>
      limit = ⟨none, none⟩ ∧ v = w := by
    intro comma
    apply settles_onFindings.2
    unfold limitAndOffset
    apply settles_notAt (w := w.found) (h.notAt [.LIMIT] (by simp [clauseWords]))
    apply settles_notAt (w := w.found) (h.notAt [.OFFSET] (by simp [clauseWords]))
    exact Settles.pure ⟨rfl, rfl⟩
  unfold limitClause
  apply settles_grammar.2
  split
  · next comma _ =>
    apply (hnone comma).bind
    rintro _ _ ⟨rfl, rfl⟩
    exact Settles.pure rfl
  · exact Settles.pure rfl

theorem achieves_noTail (h : w.cursor.AtNoClause) : Achieves w queryTail fun _ v => v = w := by
  unfold queryTail groupByClause havingClause orderByClause setOperationClause
  apply Achieves.bind (P := fun _ v => v = w)
  · exact settles_notAt (h.notAt [.GROUP] (by simp [clauseWords])) (Settles.pure rfl)
  rintro _ _ rfl
  apply (achieves_notRefused h [.HAVING] (by simp [clauseWords])).bind
  rintro _ v rfl
  apply Achieves.bind (P := fun _ x => x = v)
  · exact settles_notAt (h.notAt [.ORDER] (by simp [clauseWords])) (Settles.pure rfl)
  rintro _ _ rfl
  apply (achieves_noLimit h).bind
  rintro _ _ rfl
  apply settles_grammar.2
  exact achieves_notRefused h _ fun k hk => List.mem_append_right _ hk

end Behind

theorem achieves_listOnly {n : ℕ}
    (h : Achieves w (selectOpening rule) fun _ v => v.cursor.AtNoClause) :
    Achieves w (queryLevel rule (n + 1)) fun _ v => v.cursor.AtNoClause := by
  unfold queryLevel
  rw [queryHead_split]
  simp only [bind_assoc]
  apply h.bind
  intro _ v hv
  apply (achieves_notRefused hv [.INTO] (by simp [clauseWords])).bind
  rintro _ _ rfl
  apply (achieves_noFrom hv).bind
  rintro inner _ rfl
  apply (achieves_noWhere hv).bind
  rintro _ _ rfl
  apply (achieves_noTail hv).bind
  rintro _ _ rfl
  exact Settles.pure hv

theorem plainTypes_noClause : ∀ t ∈ .endOfText :: plainTypes d,
    t ∉ keywordTypes (clauseWords d) := by
  cases d <;> decide

/-- Where DISTINCT is not the first of the modifiers, there is a text with them that is accepted. -/
theorem exists_accepted (hknown : ∀ m ∈ ms, m ∈ modifiers d)
    (hdistinct : ∃ m ∈ ms, m ∈ distinctWords d) (hfirst : ¬DistinctFirst d ms) :
    ∃ sql s c, parse d rule catalog sql = .ok s ∧ (Cursor.ofText d sql).advance = .ok c ∧
      c.Opens (.SELECT :: ms) := by
  have hwords : ∀ k ∈ .SELECT :: ms, k ∈ .SELECT :: modifiers d := by
    intro k hk
    rcases List.mem_cons.1 hk with rfl | hk
    · exact List.mem_cons_self
    · exact List.mem_cons_of_mem _ (hknown k hk)
  obtain ⟨sql, hsql⟩ : ∃ sql : String, sql.toList = beforeName (.SELECT :: ms) :=
    ⟨String.ofList _, String.toList_ofList⟩
  obtain ⟨htypes, hend⟩ := beforeName_tokens hwords
  rw [← hsql] at htypes hend
  obtain ⟨t, ts, hts⟩ : ∃ t ts, (TokenStream.ofText d sql.toList).tokens = t :: ts ++ [] := by
    cases hts : (TokenStream.ofText d sql.toList).tokens with
    | nil => simp [hts, nameTypes] at htypes
    | cons t ts => exact ⟨t, ts, by simp⟩
  have hfirstType : (t :: ts).map Token.type = nameTypes (.SELECT :: ms) := by simpa [hts] using htypes
  obtain ⟨ht, hrest⟩ := List.cons.inj hfirstType
  have hread : ∀ c, (Cursor.ofText d sql).advance = .ok c → c.Passes (t :: ts) [] →
      Achieves ⟨c, ()⟩ (statement rule catalog) fun _ _ => True := by
    intro c hc hpass
    have hdialect : c.dialect = d := Cursor.advance_dialect hc
    have hquery : Achieves ⟨c, {}⟩ (queryLevel rule c.moves) fun _ v => v.cursor.AtNoClause := by
      apply achieves_listOnly
      apply (achieves_modifiedOpening hdialect hknown hdistinct hfirst hrest hpass).mono
      rintro _ v ⟨hv, hat⟩
      unfold Cursor.AtNoClause
      rw [hv]
      exact plainTypes_noClause _ hat
    exact (settles_selectWord (hpass.current ▸ ht) hquery).mono fun _ _ _ => trivial
  rcases parse_statement hts (fun _ => hend) hread with ⟨s, -, hp⟩ | ⟨_, hf, -⟩
  · have hprefix : keywordTypes (.SELECT :: ms) <+: nameTypes (.SELECT :: ms) :=
      List.prefix_append _ _
    obtain ⟨c, hc, hopens⟩ := Cursor.opens_ofText (htypes ▸ hprefix)
    exact ⟨sql, _, c, hp, hc, hopens⟩
  · exact hf.elim

/-- A text whose modifiers have DISTINCT among them is refused, at the top or as a sub-query in
FROM, exactly if DISTINCT or a synonym is the first of them, or the first behind one ALL. -/
theorem distinct_refused_iff (d : Dialect) (rule : ShardingRule) (catalog : Catalog)
    (ms : List Keyword) (hknown : ∀ m ∈ ms, m ∈ modifiers d)
    (hdistinct : ∃ m ∈ ms, m ∈ distinctWords d) :
    (∀ sql w, QueryAt d rule sql w → w.cursor.Opens (.SELECT :: ms) →
      ∃ fault, parse d rule catalog sql = .error fault) ↔ DistinctFirst d ms := by
  constructor
  · intro h
    by_contra hfirst
    obtain ⟨sql, s, c, hp, hc, hopens⟩ := exists_accepted hknown hdistinct hfirst
    obtain ⟨fault, hfault⟩ := h sql ⟨c, {}⟩ (.outermost hc (Cursor.isAt_iff.2 hopens.type)) hopens
    rw [hp] at hfault
    cases hfault
  · intro hfirst sql w hw hopens
    exact distinctFirst_refused hw hopens hfirst

/-- DISTINCT behind one ALL is refused. -/
theorem distinct_refused_iff_all : ∃ fault, parse .mysql ⟨[], none⟩ ⟨[]⟩
    "SELECT ALL DISTINCT status FROM t_order" = .error fault := by
  obtain ⟨c, hc, hopens⟩ := @Cursor.opens_ofText .mysql "SELECT ALL DISTINCT status FROM t_order"
    .SELECT [.ALL, .DISTINCT] (by decide +kernel)
  have hiff := distinct_refused_iff .mysql ⟨[], none⟩ ⟨[]⟩ [.ALL, .DISTINCT] (by decide) (by decide)
  exact hiff.2 (.behindAll (by decide)) _ _ (.outermost hc (Cursor.isAt_iff.2 hopens.type)) hopens

def Statement.selected : Statement → List (String × Option String)
  | .select s => s.query.items.map fun item => (item.expression, item.alias?)
  | _ => []

/-- Behind an option DISTINCT is a column, and the column that it stands before is its alias. -/
theorem distinct_read_as_column : ∃ s c,
    parse .mysql ⟨[], none⟩ ⟨[]⟩ "SELECT SQL_CACHE DISTINCT status FROM t_order" = .ok s ∧
    s.selected = [("DISTINCT", some "status")] ∧
    QueryAt .mysql ⟨[], none⟩ "SELECT SQL_CACHE DISTINCT status FROM t_order" ⟨c, {}⟩ ∧
    c.Opens [.SELECT, .SQL_CACHE, .DISTINCT] ∧
    (∀ m ∈ [Keyword.SQL_CACHE, .DISTINCT], m ∈ modifiers .mysql) ∧
    ∃ m ∈ [Keyword.SQL_CACHE, .DISTINCT], m ∈ distinctWords .mysql := by
  obtain ⟨s, hp, hitems⟩ := parse_of_view .mysql ⟨[], none⟩ ⟨[]⟩
    "SELECT SQL_CACHE DISTINCT status FROM t_order" Statement.selected
    [("DISTINCT", some "status")] (by decide +kernel)
  obtain ⟨c, hc, hopens⟩ := @Cursor.opens_ofText .mysql
    "SELECT SQL_CACHE DISTINCT status FROM t_order" .SELECT [.SQL_CACHE, .DISTINCT]
    (by decide +kernel)
  exact ⟨s, c, hp, hitems, .outermost hc (Cursor.isAt_iff.2 hopens.type), hopens, by decide,
    by decide⟩

end SqlFront

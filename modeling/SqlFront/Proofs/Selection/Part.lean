import SqlFront.Clause.SelectList
import SqlFront.Proofs.Collecting
import SqlFront.Proofs.OperandChain
import SqlFront.Proofs.Table.Factor

/-!
# Parts of select items

An item of a select list is a row of parts: single words, parentheses, and CASE up to its END.
Parentheses and CASE are moved past as a whole.
-/

set_option autoImplicit false

namespace SqlFront

open SqlFront.Parser SqlFront.Clause

variable {w v : Workspace Findings} {t o c l : Token} {us ts more : List Token} {n depth : ℕ}

/-! ## CASE up to its END

Its placeholders are counted on the way. -/

inductive Chooses : ℕ → List Token → Prop
  | last {e : Token} : e.type = .keyword .END → Chooses 1 [e]
  | close {n : ℕ} {e : Token} {ts : List Token} : e.type = .keyword .END → Chooses (n + 1) ts →
      Chooses (n + 2) (e :: ts)
  | deeper {n : ℕ} {c : Token} {ts : List Token} : c.type = .keyword .CASE → Chooses (n + 1) ts →
      Chooses n (c :: ts)
  | token {n : ℕ} {t : Token} {ts : List Token} :
      t.type ∉ [.keyword .CASE, .keyword .END, .endOfText] → Chooses n ts → Chooses n (t :: ts)

def skipCased (depth : ℕ) : Parser Findings (ℕ ⊕ Unit) := do
  match (← current).type with
  | .keyword .CASE =>
    advance
    return .inl (depth + 1)
  | .symbol .question =>
    let _ ← countPlaceholder
    advance
    return .inl depth
  | .keyword .END =>
    advance
    if depth ≤ 1 then return .inr () else return .inl (depth - 1)
  | .endOfText => return .inr ()
  | _ =>
    advance
    return .inl depth

theorem skipCase_eq : skipCase = repeatFrom 0 skipCased := rfl

theorem skipCased_round (hI : InDepth Chooses w us ts more n depth v) :
    Achieves v (skipCased depth) (Round n (InDepth Chooses w us ts more) (Closed w us ts more)) := by
  obtain ⟨before, behind, hsplit, hn, hc, hv⟩ := hI
  have hp := hv.passes
  unfold skipCased
  apply settles_current.2
  cases hc with
  | @last e he =>
    rw [hp.current]
    simp only [he]
    apply (achieves_advance hp).bind
    intro _ x hx
    rw [if_pos (Nat.le_refl 1)]
    exact Settles.pure (InDepth.last hsplit hv (hx.passed hp (by simp [he])))
  | @close k e behind he hc =>
    rw [hp.current]
    simp only [he, if_neg (show ¬k + 2 ≤ 1 by omega)]
    exact InDepth.skips hsplit hn hc hv (by simp [he])
  | @deeper _ c behind hcase hc =>
    rw [hp.current]
    simp only [hcase]
    exact InDepth.skips hsplit hn hc hv (by simp [hcase])
  | @token _ t behind ht hc =>
    rw [hp.current]
    simp only [List.mem_cons, List.not_mem_nil, or_false, not_or] at ht
    by_cases hq : t.type = .symbol .question
    · simp only [hq]
      exact InDepth.counts hsplit hn hc hv hq
    · split <;> first | exact InDepth.skips hsplit hn hc hv hq | simp_all

theorem achieves_choice (hc : c.type = .keyword .CASE) (hus : Chooses 1 us)
    (hw : w.cursor.Passes (c :: us ++ ts) more) :
    Achieves w skipCase fun _ => Passed w (placeholderCount (c :: us)) (c :: us) ts more := by
  have hlt := hw.length_lt_moves
  rw [List.length_append] at hlt
  have hstart : Passed w (placeholderCount []) [] (c :: us ++ ts) more w := .refl hw
  rw [skipCase_eq]
  exact Settles.repeatFrom (fun _ _ _ => skipCased_round) (.start (.deeper hc hus) hstart) (by omega)

/-! ## CASE without placeholders -/

inductive Cased : ℕ → List Token → Prop
  | last {e : Token} : e.type = .keyword .END → Cased 1 [e]
  | close {n : ℕ} {e : Token} {ts : List Token} : e.type = .keyword .END → Cased (n + 1) ts →
      Cased (n + 2) (e :: ts)
  | deeper {n : ℕ} {c : Token} {ts : List Token} : c.type = .keyword .CASE → Cased (n + 1) ts →
      Cased n (c :: ts)
  | token {n : ℕ} {t : Token} {ts : List Token} :
      t.type ∉ [.keyword .CASE, .keyword .END, .symbol .question, .endOfText] → Cased n ts →
      Cased n (t :: ts)

theorem Cased.chooses (h : Cased n us) : Chooses n us := by
  induction h with
  | last he => exact .last he
  | close he _ ih => exact .close he ih
  | deeper hc _ ih => exact .deeper hc ih
  | token ht _ ih =>
    simp only [List.mem_cons, List.not_mem_nil, or_false, not_or] at ht
    exact .token (by simp [ht]) ih

theorem Cased.placeholderCount (h : Cased n us) : placeholderCount us = 0 := by
  induction h with
  | last he => exact placeholderCount_of_ne (by simp [he])
  | close he _ ih => rw [placeholderCount_cons, ih, placeholderCount_of_ne (by simp [he])]
  | deeper hc _ ih => rw [placeholderCount_cons, ih, placeholderCount_of_ne (by simp [hc])]
  | token ht _ ih =>
    simp only [List.mem_cons, not_or] at ht
    rw [placeholderCount_cons, ih, placeholderCount_of_ne (by simp [ht])]

theorem achieves_skipCase (hc : c.type = .keyword .CASE) (hus : Cased 1 us)
    (hw : w.cursor.Passes (c :: us ++ ts) more) :
    Achieves w skipCase fun _ v => v.cursor.Passes ts more ∧ Collects w 0 [] v := by
  have hnone : placeholderCount (c :: us) = 0 := by
    rw [placeholderCount_cons, hus.placeholderCount, placeholderCount_of_ne (by simp [hc])]
  apply (achieves_choice hc hus.chooses hw).mono
  intro _ v hv
  exact ⟨hv.passes, hnone ▸ hv.collects⟩

/-! ## Parts -/

inductive Part
  | word (t : Token)
  | group (l : Token) (inside : List Token)
  | choice (c : Token) (inside : List Token)

namespace Part

def tokens : Part → List Token
  | word t => [t]
  | group l us => l :: us
  | choice c us => c :: us

def isGroup : Part → Bool
  | group _ _ => true
  | _ => false

def bounds : List TokenType :=
  [.symbol .leftParen, .symbol .rightParen, .symbol .comma, .symbol .question, .keyword .CASE,
    .keyword .END, .keyword .FROM, .keyword .WHERE, .endOfText]

inductive Fits : Part → Prop
  | word {t : Token} : t.type ∉ bounds → Fits (.word t)
  | group {l : Token} {us : List Token} : l.type = .symbol .leftParen → Closes 0 us →
      placeholderCount us = 0 → Fits (.group l us)
  | choice {c : Token} {us : List Token} : c.type = .keyword .CASE → Cased 1 us →
      Fits (.choice c us)

end Part

def tokensOf (ps : List Part) : List Token := ps.flatMap Part.tokens

variable {p : Part} {ps qs rs : List Part}

@[simp] theorem tokensOf_nil : tokensOf [] = [] := rfl

@[simp] theorem tokensOf_word : tokensOf (.word t :: ps) = t :: tokensOf ps := rfl

@[simp] theorem tokensOf_group : tokensOf (.group l us :: ps) = l :: (us ++ tokensOf ps) := rfl

@[simp] theorem tokensOf_choice : tokensOf (.choice c us :: ps) = c :: (us ++ tokensOf ps) := rfl

theorem length_le_tokens (ps : List Part) : ps.length ≤ (tokensOf ps).length := by
  induction ps with
  | nil => exact Nat.le_refl _
  | cons p ps ih => cases p <;> simp <;> omega

theorem tokensOf_eq_nil (h : tokensOf ps = []) : ps = [] := by
  have hle := length_le_tokens ps
  rw [h] at hle
  exact List.length_eq_zero_iff.1 (Nat.le_zero.1 hle)

theorem exists_group (h : ¬ps.head?.any Part.isGroup = false) :
    ∃ l us qs, ps = .group l us :: qs := by
  rcases ps with _ | ⟨_ | ⟨l, us⟩ | _, qs⟩
  · simp at h
  · simp [Part.isGroup] at h
  · exact ⟨l, us, qs, rfl⟩
  · simp [Part.isGroup] at h

structure Formed (ps : List Part) : Prop where
  fits (p : Part) : p ∈ ps → p.Fits
  behind (qs : List Part) (j : Token) (rs : List Part) : ps = qs ++ .word j :: rs →
    j.type ∈ [.symbol .dot, TokenType.keyword .AS] → ∃ t more, rs = .word t :: more

def Finished (ps : List Part) : Prop :=
  ∀ qs t, ps = qs ++ [Part.word t] → t.type ∉ operators

theorem Formed.of_fits (hfits : ∀ p ∈ ps, p.Fits)
    (hplain : ∀ t, Part.word t ∈ ps → t.type ∉ [.symbol .dot, TokenType.keyword .AS]) :
    Formed ps := by
  refine ⟨hfits, ?_⟩
  rintro qs j rs rfl hj
  exact (hplain j (by simp) hj).elim

theorem Finished.of_last (h : ∀ t, ps.getLast? = some (.word t) → t.type ∉ operators) :
    Finished ps := by
  rintro qs t rfl
  exact h t (by simp)

theorem Formed.suffix (h : Formed ps) (hqs : qs <:+ ps) : Formed qs := by
  obtain ⟨before, rfl⟩ := hqs
  refine ⟨fun p hp => h.fits p (List.mem_append_right _ hp), fun xs j rs hrs hj => ?_⟩
  exact h.behind (before ++ xs) j rs (by rw [hrs, List.append_assoc]) hj

theorem Finished.suffix (h : Finished ps) (hqs : qs <:+ ps) : Finished qs := by
  obtain ⟨before, rfl⟩ := hqs
  intro xs t ht
  exact h (before ++ xs) t (by rw [ht, List.append_assoc])

theorem Formed.tail (h : Formed (p :: ps)) : Formed ps := h.suffix (List.suffix_cons p ps)

theorem Formed.word (h : Formed (.word t :: ps)) : t.type ∉ Part.bounds := by
  cases h.fits _ List.mem_cons_self with
  | word ht => exact ht

theorem Formed.group (h : Formed (.group l us :: ps)) :
    l.type = .symbol .leftParen ∧ Closes 0 us ∧ placeholderCount us = 0 := by
  cases h.fits _ List.mem_cons_self with
  | group hl hus hcount => exact ⟨hl, hus, hcount⟩

theorem Formed.choice (h : Formed (.choice c us :: ps)) :
    c.type = .keyword .CASE ∧ Cased 1 us := by
  cases h.fits _ List.mem_cons_self with
  | choice hc hus => exact ⟨hc, hus⟩

/-- An operator has something behind it. -/
theorem Finished.ne_nil (h : Finished (.word o :: ps)) (ho : o.type ∈ operators) : ps ≠ [] := by
  rintro rfl
  exact h [] o rfl ho

def selectStops : List TokenType := [.symbol .comma, .keyword .FROM, .keyword .WHERE]

/-- Parts do not begin with what ends an item. -/
theorem Formed.front (h : Formed ps) (hne : ps ≠ []) :
    frontType (tokensOf ps ++ us) ∉ selectStops := by
  obtain ⟨p, ps, rfl⟩ := List.exists_cons_of_ne_nil hne
  cases p with
  | word t =>
    have ht := h.word
    simp only [Part.bounds, List.mem_cons, not_or] at ht
    simp [selectStops, ht]
  | group l us => simp [selectStops, h.group.1]
  | choice c us => simp [selectStops, h.choice.1]

theorem Formed.front_word (h : Formed ps) {xs : List TokenType}
    (hfront : frontType (tokensOf ps ++ us) ∈ xs) (hus : frontType us ∉ xs)
    (hparen : .symbol .leftParen ∉ xs) (hcase : .keyword .CASE ∉ xs) :
    ∃ t qs, ps = .word t :: qs ∧ t.type ∈ xs := by
  rcases ps with _ | ⟨⟨t⟩ | ⟨l, vs⟩ | ⟨c, vs⟩, ps⟩
  · exact (hus hfront).elim
  · exact ⟨t, ps, rfl, hfront⟩
  · exact (hparen (h.group.1 ▸ hfront)).elim
  · exact (hcase (h.choice.1 ▸ hfront)).elim

/-- Only parentheses begin with a parenthesis. -/
theorem Formed.not_paren (h : Formed ps) (hg : ps.head?.any Part.isGroup = false)
    (hus : frontType us ≠ .symbol .leftParen) :
    frontType (tokensOf ps ++ us) ≠ .symbol .leftParen := by
  cases ps with
  | nil => exact hus
  | cons p ps =>
    cases p with
    | word t =>
      have ht := h.word
      simp only [Part.bounds, List.mem_cons, not_or] at ht
      simpa using ht.1
    | group l us => simp [Part.isGroup] at hg
    | choice c us => simp [h.choice.1]

end SqlFront

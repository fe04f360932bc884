import SqlFront.Proofs.Collecting

/-!
# Values that are read up to their end

An operand is a group or a token, with the parentheses of a call if these come. Operators with
operands may follow. A negative number, cut off from the operator in front of it, goes on with a
value only where it ends it right behind a name: `a-2` is read up to its end, but neither `f(a)-2`
nor `a-2+b` is.
-/

set_option autoImplicit false

namespace SqlFront

open SqlFront.Parser SqlFront.Clause

variable {o d n t l : Token} {us vs ts xs : List Token}

/-! ## Parentheses -/

/-- The parentheses that tokens begin with are closed in one place only. -/
theorem Closes.unique {m : ℕ} (h : Closes m us) (h' : Closes m vs) (heq : us ++ ts = vs ++ xs) :
    us = vs ∧ ts = xs := by
  -- The first tokens agree, so both lists begin in the same way.
  induction h generalizing vs with
  | last => cases h' <;> simp_all
  | close _ _ ih =>
    cases h' with
    | close _ h' =>
      obtain ⟨rfl, htail⟩ := List.cons.inj heq
      obtain ⟨rfl, rfl⟩ := ih h' htail
      exact ⟨rfl, rfl⟩
    | _ => simp_all
  | deeper _ _ ih =>
    cases h' with
    | deeper _ h' =>
      obtain ⟨rfl, htail⟩ := List.cons.inj heq
      obtain ⟨rfl, rfl⟩ := ih h' htail
      exact ⟨rfl, rfl⟩
    | _ => simp_all
  | token _ _ _ _ ih =>
    cases h' with
    | token _ _ _ h' =>
      obtain ⟨rfl, htail⟩ := List.cons.inj heq
      obtain ⟨rfl, rfl⟩ := ih h' htail
      exact ⟨rfl, rfl⟩
    | _ => simp_all

theorem Closes.last_rightParen {m : ℕ} (h : Closes m us) :
    ∃ vs r, us = vs ++ [r] ∧ r.type = .symbol .rightParen := by
  induction h with
  | @last r hr => exact ⟨[], r, rfl, hr⟩
  | @close n r us _ _ ih =>
    obtain ⟨vs, r', rfl, hr'⟩ := ih
    exact ⟨r :: vs, r', rfl, hr'⟩
  | @deeper n l us _ _ ih =>
    obtain ⟨vs, r, rfl, hr⟩ := ih
    exact ⟨l :: vs, r, rfl, hr⟩
  | @token n t us _ _ _ _ ih =>
    obtain ⟨vs, r, rfl, hr⟩ := ih
    exact ⟨t :: vs, r, rfl, hr⟩

/-! ## Operands -/

inductive Operand : List Token → Prop
  | token {t : Token} : t.type ≠ .symbol .leftParen → Operand [t]
  | call {t l : Token} {us : List Token} : t.type ≠ .symbol .leftParen →
      l.type = .symbol .leftParen → Closes 0 us → Operand (t :: l :: us)
  | group {l : Token} {us : List Token} : l.type = .symbol .leftParen → Closes 0 us →
      Operand (l :: us)

def Ends (us ts : List Token) : Prop := us.length = 1 → frontType ts ≠ .symbol .leftParen

inductive Chained : List Token → Prop
  | nil : Chained []
  | cons {o : Token} {us ts : List Token} : o.type ∈ operators → Operand us → Chained ts →
      Chained (o :: (us ++ ts))

theorem Operand.ne_nil (h : Operand us) : us ≠ [] := by
  cases h <;> simp

theorem Chained.not_paren (h : Chained ts) : frontType ts ≠ .symbol .leftParen := by
  intro hleft
  cases h with
  | nil => simp at hleft
  | cons ho => simp_all [operators]

/-- The operand that tokens begin with ends in one place only. -/
theorem Operand.unique (h : Operand us) (hts : Ends us ts) (h' : Operand vs) (hxs : Ends vs xs)
    (heq : us ++ ts = vs ++ xs) : us = vs ∧ ts = xs := by
  cases h with
  | token ht =>
    cases h' with
    | token => simpa using heq
    | call _ hl =>
      obtain ⟨-, rfl⟩ := List.cons.inj heq
      exact (hts rfl hl).elim
    | group hl =>
      obtain ⟨rfl, -⟩ := List.cons.inj heq
      exact (ht hl).elim
  | call ht hl hus =>
    cases h' with
    | token =>
      obtain ⟨-, rfl⟩ := List.cons.inj heq
      exact (hxs rfl hl).elim
    | call _ _ hvs =>
      simp only [List.cons_append, List.cons.injEq] at heq
      obtain ⟨rfl, rfl, heq⟩ := heq
      obtain ⟨rfl, rfl⟩ := hus.unique hvs heq
      exact ⟨rfl, rfl⟩
    | group hl' =>
      obtain ⟨rfl, -⟩ := List.cons.inj heq
      exact (ht hl').elim
  | group hl hus =>
    cases h' with
    | token ht =>
      obtain ⟨rfl, -⟩ := List.cons.inj heq
      exact (ht hl).elim
    | call ht =>
      obtain ⟨rfl, -⟩ := List.cons.inj heq
      exact (ht hl).elim
    | group _ hvs =>
      obtain ⟨rfl, htail⟩ := List.cons.inj heq
      obtain ⟨rfl, rfl⟩ := hus.unique hvs htail
      exact ⟨rfl, rfl⟩

theorem chained_cons_iff (ho : o.type ∈ operators) (hus : Operand us) (hend : Ends us ts) :
    Chained (o :: (us ++ ts)) ↔ Chained ts := by
  constructor
  · intro h
    generalize hx : o :: (us ++ ts) = x at h
    cases h with
    | nil => cases hx
    | cons _ hvs hxs =>
      obtain ⟨-, heq⟩ := List.cons.inj hx
      obtain ⟨-, rfl⟩ := hus.unique hend hvs (fun _ => hxs.not_paren) heq
      exact hxs
  · exact .cons ho hus

theorem chained_iff_nil (h : frontType ts ∉ operators) : Chained ts ↔ ts = [] := by
  constructor
  · rintro (_ | ⟨ho, -, -⟩)
    · rfl
    · exact (h ho).elim
  · rintro rfl
    exact .nil

/-! ## Values -/

inductive Continued : List Token → Prop
  | chain {ts : List Token} : Chained ts → Continued ts
  | negative {n : Token} : isNegativeNumber n = true → Continued [n]

inductive Whole : List Token → Prop
  | group {l : Token} {us ts : List Token} : l.type = .symbol .leftParen → Closes 0 us →
      Chained ts → Whole (l :: (us ++ ts))
  | call {t l : Token} {us ts : List Token} : t.type ≠ .symbol .leftParen →
      l.type = .symbol .leftParen → Closes 0 us → Chained ts → Whole (t :: l :: (us ++ ts))
  | member {t d n : Token} {ts : List Token} : t.type ≠ .symbol .leftParen →
      d.type = .symbol .dot → Continued ts → Whole (t :: d :: n :: ts)
  | word {t : Token} {ts : List Token} : t.type ≠ .symbol .leftParen →
      frontType ts ≠ .symbol .dot → Continued ts → Whole (t :: ts)

theorem not_paren_of_negative (h : isNegativeNumber n = true) : n.type ≠ .symbol .leftParen := by
  intro hn
  simp [isNegativeNumber, hn] at h

theorem Continued.not_paren (h : Continued ts) : frontType ts ≠ .symbol .leftParen := by
  cases h with
  | chain h => exact h.not_paren
  | negative h => exact not_paren_of_negative h

theorem not_operator_of_negative (h : isNegativeNumber n = true) : n.type ∉ operators := by
  intro hn
  simp only [isNegativeNumber, Bool.and_eq_true, Bool.or_eq_true, beq_iff_eq] at h
  rcases h.1 with h | h <;> simp [h, operators] at hn

theorem continued_iff_chained (h : frontType ts ∈ operators) : Continued ts ↔ Chained ts := by
  constructor
  · rintro (h' | hn)
    · exact h'
    · exact (not_operator_of_negative hn h).elim
  · exact .chain

theorem continued_negative_iff (hn : isNegativeNumber n = true) :
    Continued (n :: ts) ↔ ts = [] := by
  constructor
  · rintro (h | -)
    · cases h with
      | cons ho => exact (not_operator_of_negative hn ho).elim
    · rfl
  · rintro rfl
    exact .negative hn

theorem not_continued (ht : t.type ∉ operators) (hn : isNegativeNumber t = false) :
    ¬ Continued (t :: ts) := by
  rintro (h | h)
  · cases h with
    | cons ho => exact ht ho
  · simp [hn] at h

theorem whole_group_iff (hl : l.type = .symbol .leftParen) (hus : Closes 0 us) :
    Whole (l :: (us ++ ts)) ↔ Chained ts := by
  constructor
  · intro h
    generalize hx : l :: (us ++ ts) = x at h
    cases h with
    | group _ hvs hxs =>
      obtain ⟨-, heq⟩ := List.cons.inj hx
      obtain ⟨-, rfl⟩ := hus.unique hvs heq
      exact hxs
    | call ht | member ht | word ht =>
      obtain ⟨rfl, -⟩ := List.cons.inj hx
      exact (ht hl).elim
  · exact .group hl hus

theorem whole_call_iff (ht : t.type ≠ .symbol .leftParen) (hl : l.type = .symbol .leftParen)
    (hus : Closes 0 us) : Whole (t :: l :: (us ++ ts)) ↔ Chained ts := by
  constructor
  · intro h
    generalize hx : t :: l :: (us ++ ts) = x at h
    cases h with
    | group hl' =>
      obtain ⟨rfl, -⟩ := List.cons.inj hx
      exact (ht hl').elim
    | call _ _ hvs hxs =>
      simp only [List.cons.injEq] at hx
      obtain ⟨-, heq⟩ := hx.2
      obtain ⟨-, rfl⟩ := hus.unique hvs heq
      exact hxs
    | member _ hd =>
      simp only [List.cons.injEq] at hx
      simp [← hx.2.1, hl] at hd
    | word _ _ hxs =>
      obtain ⟨-, rfl⟩ := List.cons.inj hx
      exact (hxs.not_paren hl).elim
  · exact .call ht hl hus

theorem whole_member_iff (ht : t.type ≠ .symbol .leftParen) (hd : d.type = .symbol .dot) :
    Whole (t :: d :: n :: ts) ↔ Continued ts := by
  constructor
  · intro h
    generalize hx : t :: d :: n :: ts = x at h
    cases h with
    | group hl =>
      obtain ⟨rfl, -⟩ := List.cons.inj hx
      exact (ht hl).elim
    | call _ hl =>
      simp only [List.cons.injEq] at hx
      simp [← hx.2.1, hd] at hl
    | member _ _ hxs =>
      simp only [List.cons.injEq] at hx
      rwa [hx.2.2.2]
    | word _ hdot =>
      obtain ⟨-, rfl⟩ := List.cons.inj hx
      exact (hdot hd).elim
  · exact .member ht hd

theorem whole_word_iff (ht : t.type ≠ .symbol .leftParen)
    (hleft : frontType ts ≠ .symbol .leftParen) (hdot : frontType ts ≠ .symbol .dot) :
    Whole (t :: ts) ↔ Continued ts := by
  constructor
  · intro h
    generalize hx : t :: ts = x at h
    cases h with
    | group hl =>
      obtain ⟨rfl, -⟩ := List.cons.inj hx
      exact (ht hl).elim
    | call _ hl =>
      obtain ⟨-, rfl⟩ := List.cons.inj hx
      exact (hleft hl).elim
    | member _ hd =>
      obtain ⟨-, rfl⟩ := List.cons.inj hx
      exact (hdot hd).elim
    | word _ _ hxs =>
      obtain ⟨-, rfl⟩ := List.cons.inj hx
      exact hxs
  · exact .word ht hdot

end SqlFront

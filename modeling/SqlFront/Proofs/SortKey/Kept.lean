import SqlFront.Proofs.SortKey.Staging

/-!
# Names that are kept

Whether the name of a sort key by itself is the expression again depends on the kind of the
expression. An identifier and a member of an owner are kept if they need no quotes, a text from the
source if it stands for itself, and a string is never kept.
-/

set_option autoImplicit false

namespace SqlFront

open SqlFront.Parser SqlFront.Clause

variable {d : Dialect} {text : List Char} {name owner member : String} {e : Expression} {t : Token}
  {ts : List Token} {n : ℕ}

/-- The expression is what its name as a sort key by itself is read as. An identifier is one word
under its name, and a member is an owner, a point and a word under their names. -/
inductive Kept (d : Dialect) : Expression → Prop
  | identifier {name : String} :
      HasWords d (unquoted name ++ " ").toList [(.literal .identifier, name)] →
      Kept d (.identifier name)
  | property {owner member : String} {x y : TokenType} : x ≠ .symbol .leftParen →
      HasWords d (unquoted owner ++ "." ++ unquoted member ++ " ").toList
        [(x, owner), (.symbol .dot, "."), (y, member)] → Kept d (.property owner member)
  | raw {source : String} : SpeltWhole d source (.raw source) → Kept d (.raw source)

/-! ## Values of one kind -/

inductive Says (t : Token) : Expression → Prop
  | string {value : String} : t.type = .literal .chars → t.literals = value → Says t (.text value)
  | identifier {value : String} : t.type = .literal .identifier → unquoted t.literals = value →
      Says t (.identifier value)

def IsWord : Expression → Prop
  | .text _ | .identifier _ => True
  | _ => False

theorem says_operandValue (h : operandValue n t = e) (he : IsWord e) : Says t e := by
  subst h
  unfold operandValue at he ⊢
  split at he
  · cases he
  · next hquestion =>
    rw [if_neg hquestion]
    rcases literal_cases t with ⟨htype, ht⟩ | ⟨htype, ht⟩ | ⟨v, ht⟩ | ht <;> rw [ht] at he ⊢
    · exact .string htype rfl
    · exact .identifier htype rfl
    · cases he
    · cases he

theorem operandValue_property : operandValue n t ≠ .property owner member := by
  unfold operandValue
  split
  · simp
  · rcases literal_cases t with ⟨-, ht⟩ | ⟨-, ht⟩ | ⟨v, ht⟩ | ht <;> simp [ht]

theorem wholeValue_cases (text : List Char) (n : ℕ) (ts : List Token) :
    (∃ t, ts = [t] ∧ wholeValue text n ts = operandValue n t) ∨
      (∃ t c m, ts = [t, c, m] ∧ t.type ≠ .symbol .leftParen ∧ c.type = .symbol .dot ∧
        wholeValue text n ts = .property t.literals m.literals) ∨
      wholeValue text n ts = sourceOf text ts := by
  unfold wholeValue
  split
  · exact Or.inl ⟨_, rfl, rfl⟩
  · split
    · next h => exact Or.inr (Or.inl ⟨_, _, _, rfl, h.1, h.2, rfl⟩)
    · exact Or.inr (Or.inr rfl)
  · exact Or.inr (Or.inr rfl)

theorem says_wholeValue (h : wholeValue text n ts = e) (he : IsWord e) :
    ∃ t, ts = [t] ∧ Says t e := by
  rcases wholeValue_cases text n ts with ⟨t, rfl, hv⟩ | ⟨t, c, m, -, -, -, hv⟩ | hv <;>
    rw [hv] at h
  · exact ⟨t, rfl, says_operandValue h he⟩
  · cases h
    cases he
  · cases h
    cases he

theorem wholeValue_property (h : wholeValue text n ts = .property owner member) :
    ∃ t c m, ts = [t, c, m] ∧ t.type ≠ .symbol .leftParen ∧ c.type = .symbol .dot ∧
      t.literals = owner ∧ m.literals = member := by
  rcases wholeValue_cases text n ts with ⟨t, rfl, hv⟩ | ⟨t, c, m, hts, ht, hc, hv⟩ | hv <;>
    rw [hv] at h
  · exact (operandValue_property h).elim
  · cases h
    exact ⟨t, c, m, hts, ht, hc, rfl, rfl⟩
  · cases h

/-! ## Quotes -/

theorem unquoted_eq_of_length_le (h : name.length ≤ (unquoted name).length) :
    unquoted name = name := by
  rw [← String.length_toList, ← String.length_toList, unquoted, String.toList_ofList] at h
  have hkept := List.filter_sublist.eq_of_length_le h
  rw [unquoted, hkept, String.ofList_toList]

/-- Exactly the texts without quotes are their own names. -/
theorem unquoted_eq_self_iff : unquoted name = name ↔ ∀ c ∈ name.toList, isQuote c = false := by
  rw [unquoted, String.ext_iff, String.toList_ofList, List.filter_eq_self]
  simp

theorem isQuote_of_mem_unquoted {c : Char} (h : c ∈ (unquoted name ++ " ").toList) :
    isQuote c = false := by
  rw [name_toList, unquoted, String.toList_ofList, List.mem_append, List.mem_filter] at h
  rcases h with ⟨-, hc⟩ | hc
  · simpa using hc
  · obtain rfl := List.mem_singleton.1 hc
    decide

theorem hasWords_iff_tokens {ws : List (TokenType × String)} : HasWords d text ws ↔
    (TokenStream.ofText d text).tokens.map Token.word = ws ∧
      ∃ last, (TokenStream.ofText d text).ending = .ok last :=
  hasWords_iff.trans (TokenStream.scan_spells (Nat.le_refl _))

/-! ## Each kind of expression -/

theorem not_spelt_string : ¬SpeltWhole d (unquoted name) (.text name) := by
  intro h
  obtain ⟨t, htokens, ⟨htype, -⟩⟩ := says_wholeValue h.value trivial
  have hstands : t.StandsIn (unquoted name ++ " ").toList :=
    TokenStream.standsIn (d := d) (by rw [htokens]; simp)
  have hquote : ∃ c ∈ (unquoted name ++ " ").toList, isQuote c = true := by
    have hbetween : ∀ {c : Char}, c ∈ between (unquoted name ++ " ").toList t.start t.stop →
        c ∈ (unquoted name ++ " ").toList :=
      fun hc => List.mem_of_mem_take (List.mem_of_mem_drop hc)
    have hquotes := hstands.string htype
    generalize between (unquoted name ++ " ").toList t.start t.stop = piece at hquotes hbetween
    cases hquotes with
    | @plain q hq => exact ⟨q, hbetween (by simp), by rcases hq with rfl | rfl <;> decide⟩
    | national => exact ⟨'\'', hbetween (by simp), by decide⟩
  obtain ⟨c, hmem, hc⟩ := hquote
  rw [isQuote_of_mem_unquoted hmem] at hc
  cases hc

theorem spelt_identifier_iff : SpeltWhole d (unquoted name) (.identifier name) ↔
    HasWords d (unquoted name ++ " ").toList [(.literal .identifier, name)] := by
  rw [hasWords_iff_tokens]
  constructor
  · intro h
    obtain ⟨t, htokens, _ | ⟨htype, hname⟩⟩ := says_wholeValue h.value trivial
    have hstands : t.StandsIn (unquoted name ++ " ").toList :=
      TokenStream.standsIn (d := d) (by rw [htokens]; simp)
    have hstop := h.stop rfl (htokens.trans (List.nil_append [t]).symm)
    have hliterals := hstands.literals_le
    -- The literals of the token are no longer than the name, and they have at least its length.
    have hsame : unquoted t.literals = t.literals := by
      apply unquoted_eq_of_length_le
      have hle := length_unquoted_le name
      rw [String.length_toList] at hstop
      rw [hname]
      omega
    exact ⟨by rw [htokens, List.map_singleton, Token.word, htype, ← hsame, hname], h.ending⟩
  · rintro ⟨hwords, hend⟩
    obtain ⟨t, htokens, hword⟩ := List.map_eq_singleton_iff.1 hwords
    obtain ⟨htype, hliterals⟩ := Prod.mk.inj hword
    have hstands : t.StandsIn (unquoted name ++ " ").toList :=
      TokenStream.standsIn (d := d) (by rw [htokens]; simp)
    refine ⟨hend, ?_, ?_⟩
    · rw [htokens]
      exact .word (by simp [htype]) (by simp) (.chain .nil)
    · have hsame : unquoted name = name := by
        apply unquoted_eq_self_iff.2
        intro c hc
        refine isQuote_of_mem_unquoted (?_ : c ∈ (unquoted name ++ " ").toList)
        have hslice := hstands.literals (by simp [htype])
        rw [← hliterals, hslice, slice, String.toList_ofList] at hc
        exact List.mem_of_mem_take (List.mem_of_mem_drop hc)
      have hvalue : operandValue 0 t = .identifier (unquoted name) := by
        simp [operandValue, literal, htype, hliterals]
      rw [htokens]
      exact hvalue.trans (by rw [hsame])

theorem spelt_property_iff :
    SpeltWhole d (unquoted owner ++ "." ++ unquoted member) (.property owner member) ↔
      ∃ x y, x ≠ .symbol .leftParen ∧
        HasWords d (unquoted owner ++ "." ++ unquoted member ++ " ").toList
          [(x, owner), (.symbol .dot, "."), (y, member)] := by
  simp only [hasWords_iff_tokens]
  constructor
  · intro h
    obtain ⟨t, c, m, htokens, ht, hc, rfl, rfl⟩ := wholeValue_property h.value
    have hdot : c.literals = "." := TokenStream.symbol_literals (by rw [htokens]; simp) hc
    exact ⟨t.type, m.type, ht, by rw [htokens]; simp [Token.word, hc, hdot], h.ending⟩
  · rintro ⟨x, y, hx, hwords, hend⟩
    obtain ⟨t, ts, htokens, ht, hrest⟩ := List.map_eq_cons_iff.1 hwords
    obtain ⟨c, ts, rfl, hc, hrest⟩ := List.map_eq_cons_iff.1 hrest
    obtain ⟨m, rfl, hm⟩ := List.map_eq_singleton_iff.1 hrest
    obtain ⟨rfl, rfl⟩ := Prod.mk.inj ht
    obtain ⟨hdot, -⟩ := Prod.mk.inj hc
    obtain ⟨rfl, rfl⟩ := Prod.mk.inj hm
    refine ⟨hend, ?_, ?_⟩
    · rw [htokens]
      exact .member hx hdot (.chain .nil)
    · rw [htokens]
      exact wholeValue_member hx hdot

theorem spelt_iff_kept (h : e.keyName? = some name) : SpeltWhole d name e ↔ Kept d e := by
  cases e with
  | text value =>
    obtain rfl := Option.some.inj h
    exact ⟨fun hs => (not_spelt_string hs).elim, fun hk => by cases hk⟩
  | identifier value =>
    obtain rfl := Option.some.inj h
    rw [spelt_identifier_iff]
    exact ⟨.identifier, fun hk => by cases hk; assumption⟩
  | property owner member =>
    obtain rfl := Option.some.inj h
    rw [spelt_property_iff]
    constructor
    · rintro ⟨x, y, hx, hwords⟩
      exact .property hx hwords
    · rintro (_ | ⟨hx, hwords⟩ | _)
      exact ⟨_, _, hx, hwords⟩
  | raw source =>
    obtain rfl := Option.some.inj h
    exact ⟨.raw, fun hk => by cases hk; assumption⟩
  | number | placeholder => cases h

theorem kept_bare (h : IsAlias d name) : Kept d (.identifier name) := by
  have hquote : ∀ c, Character.isWord c = true → isQuote c = false := by
    intro c hc
    by_contra hq
    simp only [isQuote, Bool.not_eq_false, Bool.or_eq_true, beq_iff_eq] at hq
    rcases hq with (((rfl | rfl) | rfl) | rfl) | rfl <;> revert hc <;> decide
  have hname : unquoted name = name :=
    unquoted_eq_self_iff.2 fun c hc => hquote c (h.bare.isWord c hc)
  apply Kept.identifier
  rw [hname, hasWords_iff, name_toList, Spells.bare_iff h.bare (by decide), String.ofList_toList,
    h.wordType]
  exact ⟨[], rfl, (Spells.space_iff (by decide)).2 .atEnd⟩

end SqlFront

import SqlFront.Proofs.Derived.Staging
import SqlFront.Proofs.Insertion.Statement
import SqlFront.Proofs.Lexeme.Behind
import SqlFront.Proofs.SortKey.Whole

/-!
# The text staged for a sort key

A sort key that the select list does not cover is staged by its name: an identifier or a member of
an owner without its quotes, a string without them, and any other expression as it stands in the
source. The staged text reads as the expression again exactly when the name by itself is spelt as
that expression.
-/

set_option autoImplicit false

namespace SqlFront

open SqlFront.Parser SqlFront.Clause Derived

variable {d : Dialect} {text : List Char} {name alias_ : String} {e : Expression} {t : Token}
  {ts us : List Token} {n : ℕ}

/-! ## Names -/

def Expression.keyName? : Expression → Option String
  | .text value => some (unquoted value)
  | .identifier name => some (unquoted name)
  | .property owner name => some (unquoted owner ++ "." ++ unquoted name)
  | .raw source => some source
  | .number _ | .placeholder _ => none

theorem orderItem?_name {q : Query} {stop : ℕ} {direction nulls : Direction} {key : OrderItem}
    (h : orderItem? q stop direction nulls e = .ok (some key)) :
    key.qualifiedName? = e.keyName? := by
  cases e with
  | number value =>
    simp only [orderItem?] at h
    split at h
    · cases h
      rfl
    · cases h
  | text | identifier | property | raw =>
    cases h
    rfl
  | placeholder => cases h

theorem length_unquoted_le (s : String) : (unquoted s).length ≤ s.length := by
  rw [← String.length_toList, ← String.length_toList, unquoted, String.toList_ofList]
  exact List.length_filter_le _ _

theorem Token.StandsIn.literals_le (h : t.StandsIn text) :
    t.start + t.literals.length ≤ t.stop := by
  have hbetween : (between text t.start t.stop).length = t.stop - t.start := by
    rw [between, List.length_drop, List.length_take, Nat.min_eq_left h.stop]
  have hpos := h.nonempty
  by_cases hchars : t.type = .literal .chars
  · have hquotes := h.string hchars
    have hlen : ∀ l, Quotes t.literals l → t.literals.length ≤ l.length := by
      rintro _ (hq | hn)
      all_goals
        rw [← String.length_toList]
        simp only [List.length_cons, List.length_append]
        omega
    have hle := hlen _ hquotes
    omega
  · have hliterals := congrArg (fun s => s.toList.length) (h.literals hchars)
    simp only [slice, String.toList_ofList] at hliterals
    rw [← String.length_toList, hliterals, ← between, hbetween]
    omega

theorem length_trimmed_le (s : String) : (trimmed s).length ≤ s.length := by
  rw [← String.length_toList, ← String.length_toList, trimmed, String.toList_ofList,
    List.length_reverse]
  have hend := (List.dropWhile_suffix isWhiteSpace
    (l := (s.toList.dropWhile isWhiteSpace).reverse)).length_le
  have hfront := (List.dropWhile_suffix isWhiteSpace (l := s.toList)).length_le
  rw [List.length_reverse] at hend
  exact hend.trans hfront

theorem literal_cases (t : Token) :
    (t.type = .literal .chars ∧ literal t = .text t.literals) ∨
      (t.type = .literal .identifier ∧ literal t = .identifier (unquoted t.literals)) ∨
      (∃ v, literal t = .number v) ∨ literal t = .raw t.literals := by
  unfold literal
  extract_lets number?
  clear_value number?
  split
  · next h => exact Or.inl ⟨h, rfl⟩
  · next h => exact Or.inr (Or.inl ⟨h, rfl⟩)
  · split
    · exact Or.inr (Or.inr (Or.inl ⟨_, rfl⟩))
    · exact Or.inr (Or.inr (Or.inr rfl))

theorem literal_keyName_le (h : (literal t).keyName? = some name) :
    name.length ≤ t.literals.length := by
  rcases literal_cases t with ⟨-, ht⟩ | ⟨-, ht⟩ | ⟨v, ht⟩ | ht <;> rw [ht] at h
  · obtain rfl := Option.some.inj h
    exact length_unquoted_le _
  · obtain rfl := Option.some.inj h
    exact (length_unquoted_le _).trans (length_unquoted_le _)
  · cases h
  · obtain rfl := Option.some.inj h
    exact Nat.le_refl _

theorem keyName_le (htokens : (TokenStream.ofText d text).tokens = ts ++ us)
    (hname : (wholeValue text n ts).keyName? = some name) :
    name.length ≤ placeBehind 0 ts := by
  have hplaces : ∀ t ∈ ts, t.StandsIn text := fun t ht =>
    TokenStream.standsIn (d := d) (by rw [htokens]; exact List.mem_append_left _ ht)
  have hsource : ∀ {ts : List Token}, (sourceOf text ts).keyName? = some name →
      name.length ≤ placeBehind 0 ts := by
    intro ts h
    obtain rfl := Option.some.inj h
    refine (length_trimmed_le _).trans ?_
    rw [← String.length_toList, slice, String.toList_ofList, List.length_drop, List.length_take]
    omega
  rcases ts with _ | ⟨t, _ | ⟨c, _ | ⟨m, _ | ⟨x, xs⟩⟩⟩⟩
  · exact hsource hname
  · have hle := (hplaces t (by simp)).literals_le
    simp only [wholeValue, operandValue] at hname
    split at hname
    · cases hname
    · have hliteral := literal_keyName_le hname
      change name.length ≤ t.stop
      omega
  · exact hsource hname
  · by_cases hmember : t.type ≠ .symbol .leftParen ∧ c.type = .symbol .dot
    · rw [wholeValue_member hmember.1 hmember.2] at hname
      obtain rfl := Option.some.inj hname
      have howner := (hplaces t (by simp)).literals_le
      have hdot := (hplaces c (by simp)).nonempty
      have hlast := (hplaces m (by simp)).literals_le
      have hordered : ∀ {xs ys : List Token} {x y : Token},
          [t, c, m] ++ us = xs ++ x :: ys → y ∈ ys → x.stop ≤ y.start :=
        fun h hy => TokenStream.stop_le (htokens.trans h) hy
      have hfirst : t.stop ≤ c.start := @hordered [] (c :: m :: us) _ _ rfl (by simp)
      have hsecond : c.stop ≤ m.start := @hordered [t] (m :: us) _ _ rfl (by simp)
      have hle := length_unquoted_le t.literals
      have hle' := length_unquoted_le m.literals
      have hpoint : ".".length = 1 := rfl
      rw [String.length_append, String.length_append, hpoint]
      change _ ≤ m.stop
      omega
    · rw [wholeValue, if_neg hmember] at hname
      exact hsource hname
  · exact hsource hname

theorem wholeValue_append {u a b : List Char} (h : placeBehind 0 ts ≤ u.length) :
    wholeValue (u ++ a) n ts = wholeValue (u ++ b) n ts := by
  have hsource : sourceOf (u ++ a) ts = sourceOf (u ++ b) ts := by
    rw [sourceOf, sourceOf, slice, slice, List.take_append_of_le_length h,
      List.take_append_of_le_length h]
  unfold wholeValue
  split
  · rfl
  · rw [hsource]
  · exact hsource

/-! ## Spelling -/

structure SpeltWhole (d : Dialect) (name : String) (e : Expression) : Prop where
  ending : ∃ last, (TokenStream.ofText d (name ++ " ").toList).ending = .ok last
  whole : Whole (TokenStream.ofText d (name ++ " ").toList).tokens
  value : wholeValue (name ++ " ").toList 0 (TokenStream.ofText d (name ++ " ").toList).tokens = e

/-- Read in the dialect, the text begins with the expression. Behind it come `AS` and the alias, and
then nothing. -/
def RereadsAs (d : Dialect) (text : String) (e : Expression) (alias_ : String) : Prop :=
  ∃ c v ts, (Cursor.ofText d text).advance = .ok c ∧
    expression ⟨c, { kind := .dql }⟩ = .ok e v ∧ v.cursor.Faces ts ∧
    ts.map Token.word = [(.keyword .AS, "AS"), (.literal .identifier, alias_)]

theorem staged_toList : (staged name alias_).toList = name.toList ++ behindArgument alias_ := by
  have has : " AS ".toList = [' ', 'A', 'S', ' '] := by decide
  have hspace : " ".toList = [' '] := by decide
  simp [staged, behindArgument, has, hspace]

theorem noBy_alias : NoBy ('A' :: 'S' :: ' ' :: (alias_.toList ++ [' '])) := by
  intro word hword
  simp only [List.mem_cons, List.not_mem_nil, or_false] at hword
  rcases hword with rfl | rfl <;> rfl

/-! ## Cutting at the end of the name -/

theorem TokenStream.leads_upTo {u a : List Char} {xs zs : List Token}
    (h : (ofText d (u ++ a)).tokens = xs ++ t :: zs) (hstop : t.stop = u.length) :
    ∃ last, Leads d a none 0 u (xs ++ [t]) last := by
  obtain ⟨m, last, j, -, -, hm, hleads, -⟩ := scan_leads h (Nat.le_refl _)
  obtain rfl : m = u.length := by omega
  rw [List.take_left, List.drop_left] at hleads
  exact ⟨last, hleads⟩

/-- The tokens of a text in two parts, from the words of the second part. -/
theorem Leads.tokens {u a : List Char} {last : Option Char} {ws : List (TokenType × String)}
    (h : Leads d a none 0 u ts last) (hs : Spells d last a ws) :
    ∃ us, (TokenStream.ofText d (u ++ a)).tokens = ts ++ us ∧ us.map Token.word = ws ∧
      ∃ e, (TokenStream.ofText d (u ++ a)).ending = .ok e := by
  obtain ⟨j, hj, hscan⟩ := h.scan (Nat.le_refl _)
  unfold TokenStream.ofText
  rw [hscan]
  exact ⟨_, rfl, (TokenStream.scan_spells hj).1 hs⟩

theorem start_of_as {u : List Char} (hA : 'A' ∉ alias_.toList)
    (ht : t.StandsIn (u ++ behindArgument alias_)) (hword : t.word = (.keyword .AS, "AS"))
    (hle : u.length ≤ t.start) : t.start = u.length + 1 := by
  obtain ⟨htype, hliterals⟩ := Prod.mk.inj hword
  obtain ⟨i, hi⟩ := Nat.exists_eq_add_of_le hle
  have hslice := congrArg (fun s => s.toList[0]?) ((ht.literals (by simp [htype])).symm.trans hliterals)
  have hfront : (behindArgument alias_)[i]? = some 'A' := by
    have hplace := ht.nonempty
    simp only [slice, String.toList_ofList, List.getElem?_drop, Nat.add_zero] at hslice
    rw [List.getElem?_take, if_pos hplace, hi, List.getElem?_append_right (Nat.le_add_right _ _),
      Nat.add_sub_cancel_left] at hslice
    exact hslice
  rcases i with _ | _ | _ | _ | i
  · cases hfront
  · exact hi
  · cases hfront
  · cases hfront
  · have hmem := List.mem_of_getElem? (l := alias_.toList ++ [' ']) hfront
    rcases List.mem_append.1 hmem with hmem | hmem
    · exact (hA hmem).elim
    · cases List.mem_singleton.1 hmem

/-! ## Reading the staged text -/

theorem Whole.concat (h : Whole ts) : ∃ xs t, ts = xs ++ [t] := by
  obtain rfl | ⟨xs, t, h⟩ := List.eq_nil_or_concat ts
  · cases h
  · exact ⟨xs, t, by rw [h, List.concat_eq_append]⟩

theorem name_toList : (name ++ " ").toList = name.toList ++ [' '] := by
  have hspace : " ".toList = [' '] := by decide
  rw [String.toList_append, hspace]

/-- The last token ends where the name ends. -/
theorem SpeltWhole.stop {xs : List Token} (h : SpeltWhole d name e) (hname : e.keyName? = some name)
    (htokens : (TokenStream.ofText d (name ++ " ").toList).tokens = xs ++ [t]) :
    t.stop = name.toList.length := by
  have hall := htokens.trans (List.append_nil (xs ++ [t])).symm
  have hfar := keyName_le hall (htokens ▸ h.value ▸ hname)
  rw [placeBehind_concat, ← String.length_toList] at hfar
  rw [name_toList] at htokens
  have hstands : t.StandsIn (name.toList ++ [' ']) :=
    TokenStream.standsIn (d := d) (by rw [htokens]; simp)
  have hnear := hstands.stop
  rw [List.length_append, List.length_singleton] at hnear
  have hspace : t.stop ≠ name.toList.length + 1 :=
    TokenStream.stop_ne (d := d) (v := []) (by rw [htokens]; simp)
  omega

/-- A text that reads as an expression under an alias is made of the tokens of a whole value, of `AS`
and of the alias. -/
theorem RereadsAs.tokens {source : String} (h : RereadsAs d source e alias_) : ∃ ts us,
    (TokenStream.ofText d source.toList).tokens = ts ++ us ∧ Whole ts ∧
      e = wholeValue source.toList 0 ts ∧
      us.map Token.word = [(.keyword .AS, "AS"), (.literal .identifier, alias_)] := by
  obtain ⟨c, v, rest, hc, he, hrest, hwords⟩ := h
  have hall : Inner (TokenStream.ofText d source.toList).tokens :=
    fun _ ht => TokenStream.scan_type ht
  obtain ⟨a, us, rfl, ha, -⟩ := List.map_eq_cons_iff.1 hwords
  have has : a.type ≠ .endOfText := by
    rw [show a.type = .keyword .AS from congrArg Prod.fst ha]
    simp
  obtain ⟨ts, htokens, hwhole, hvalue⟩ :=
    expression_whole hall (Cursor.ofText_faces hc) he hrest has
  have htext : c.text = source.toList := Cursor.advance_text hc
  exact ⟨ts, a :: us, htokens, hwhole, htext ▸ hvalue, hwords⟩

theorem RereadsAs.spelt (hA : 'A' ∉ alias_.toList) (hname : e.keyName? = some name)
    (h : RereadsAs d (staged name alias_) e alias_) : SpeltWhole d name e := by
  obtain ⟨ts, rest, htokens, hwhole, hvalue, hwords⟩ := h.tokens
  obtain ⟨a, us, rfl, ha, -⟩ := List.map_eq_cons_iff.1 hwords
  obtain ⟨xs, t, rfl⟩ := hwhole.concat
  -- The last token of the expression ends where the name ends.
  have hfar := keyName_le htokens (hvalue ▸ hname)
  rw [placeBehind_concat] at hfar
  rw [List.append_assoc, List.singleton_append] at htokens
  have hnear : t.stop ≤ a.start := TokenStream.stop_le htokens (by simp)
  have hstands : a.StandsIn (staged name alias_).toList :=
    TokenStream.standsIn (d := d) (by rw [htokens]; simp)
  rw [staged_toList] at hstands htokens hvalue
  rw [← String.length_toList] at hfar
  have hstart := start_of_as hA hstands ha (by omega)
  have hspace : t.stop ≠ name.toList.length + 1 :=
    TokenStream.stop_ne (by
      change t ∈ (TokenStream.ofText d (name.toList ++ behindArgument alias_)).tokens
      rw [htokens]
      simp)
  have hstop : t.stop = name.toList.length := by omega
  obtain ⟨last, hleads⟩ := TokenStream.leads_upTo htokens hstop
  have hcut := hleads.behindSpace noBy_alias noBy_nil
  obtain ⟨_, hown, hnone, hend⟩ := hcut.tokens ((Spells.space_iff (by decide)).2 .atEnd)
  obtain rfl := List.map_eq_nil_iff.1 hnone
  rw [List.append_nil] at hown
  constructor
  · rw [name_toList]
    exact hend
  · rw [name_toList, hown]
    exact hwhole
  · rw [name_toList, hown, hvalue]
    refine wholeValue_append ?_
    rw [placeBehind_concat]
    exact hstop.le

theorem SpeltWhole.rereads (halias : IsAlias d alias_) (hname : e.keyName? = some name)
    (h : SpeltWhole d name e) : RereadsAs d (staged name alias_) e alias_ := by
  obtain ⟨xs, t, htokens⟩ := h.whole.concat
  have hstop := h.stop hname htokens
  obtain ⟨-, hwhole, hvalue⟩ := h
  rw [htokens] at hwhole hvalue
  rw [name_toList] at htokens hvalue
  obtain ⟨last, hleads⟩ := TokenStream.leads_upTo htokens hstop
  have hcut := hleads.behindSpace noBy_nil (@noBy_alias alias_)
  obtain ⟨us, hown, hwords, -⟩ := hcut.tokens ((spells_behindArgument halias).2 rfl)
  obtain ⟨a, us, rfl, ha, -⟩ := List.map_eq_cons_iff.1 hwords
  have has : a.type = .keyword .AS := congrArg Prod.fst ha
  change (TokenStream.ofText d (name.toList ++ behindArgument alias_)).tokens = _ at hown
  rw [← staged_toList] at hown
  obtain ⟨c, hc, hpasses⟩ : ∃ c, (Cursor.ofText d (staged name alias_)).advance = .ok c ∧
      c.Passes (xs ++ [t]) (a :: us) := by
    obtain ⟨y, ys, hy⟩ := List.exists_cons_of_ne_nil (List.concat_ne_nil t xs)
    rw [hy] at hown
    obtain ⟨c, hc, hfaces⟩ := Cursor.ofText_first hown
    exact ⟨c, hc, hy ▸ hfaces.passes (List.cons_ne_nil a us)⟩
  have hend : endsOperand (a :: us) = true := endsOperand_keyword has
  obtain ⟨_, v, he, rfl, hv⟩ :=
    (expression_read (w := ⟨c, { kind := .dql }⟩) hwhole hend hpasses).run
  have htext : c.text = name.toList ++ behindArgument alias_ :=
    (Cursor.advance_text hc).trans staged_toList
  refine ⟨c, v, a :: us, hc, ?_, hv.passes.faces, hwords⟩
  have hsame : wholeValue c.text 0 (xs ++ [t]) = e := by
    rw [← hvalue, htext]
    refine wholeValue_append ?_
    rw [placeBehind_concat]
    exact hstop.le
  rw [← hsame]
  exact he

theorem rereads_iff (halias : IsAlias d alias_) (hA : 'A' ∉ alias_.toList)
    (hname : e.keyName? = some name) :
    RereadsAs d (staged name alias_) e alias_ ↔ SpeltWhole d name e :=
  ⟨fun h => h.spelt hA hname, fun h => h.rereads halias hname⟩

end SqlFront

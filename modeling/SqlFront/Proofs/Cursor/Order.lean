import SqlFront.Proofs.Cursor.Path
import SqlFront.Proofs.Lexeme.Extent

/-!
# The order of the tokens

The tokens of a text stand one behind the other, and the end of the text behind all of them. So a
cursor that moves on comes to a greater place, until it stays at the end of the text.
-/

set_option autoImplicit false

namespace SqlFront

/-- Tokens that stand one behind the other, with the end of the text behind all of them. -/
structure TokenStream.Ordered (s : TokenStream) : Prop where
  apart : s.tokens.Pairwise fun t u => t.stop ≤ u.start
  nonempty : ∀ t ∈ s.tokens, t.start < t.stop
  type : ∀ t ∈ s.tokens, t.type ≠ .endOfText
  ending : ∀ e, s.ending = .ok e → e.type = .endOfText ∧ ∀ t ∈ s.tokens, t.stop ≤ e.start

namespace TokenStream

structure OrderedFrom (offset : ℕ) (s : TokenStream) : Prop where
  ordered : s.Ordered
  first : ∀ t ∈ s.tokens, offset ≤ t.start
  last : ∀ e, s.ending = .ok e → offset ≤ e.start

theorem orderedFrom_atEnd (n : ℕ) : OrderedFrom n ⟨[], .ok (Token.atEnd n)⟩ := by
  refine ⟨⟨.nil, fun _ h => (by cases h), fun _ h => (by cases h), fun e he => ?_⟩,
    fun _ h => (by cases h), fun e he => ?_⟩
  · obtain rfl := Except.ok.inj he
    exact ⟨rfl, fun _ h => by cases h⟩
  · obtain rfl := Except.ok.inj he
    exact le_rfl

theorem orderedFrom_error (n : ℕ) (fault : LexicalFault) : OrderedFrom n ⟨[], .error fault⟩ :=
  ⟨⟨.nil, fun _ h => (by cases h), fun _ h => (by cases h), fun _ h => (by cases h)⟩,
    fun _ h => (by cases h), fun _ h => (by cases h)⟩

theorem OrderedFrom.mono {m n : ℕ} {s : TokenStream} (h : OrderedFrom n s) (hm : m ≤ n) :
    OrderedFrom m s :=
  ⟨h.ordered, fun t ht => hm.trans (h.first t ht), fun e he => hm.trans (h.last e he)⟩

/-- One token more in front of those that come behind it. -/
theorem OrderedFrom.push {s : TokenStream} {t : Token} (h : OrderedFrom t.stop s)
    (ht : t.start < t.stop) (htype : t.type ≠ .endOfText) : OrderedFrom t.start (s.push t) := by
  refine ⟨⟨.cons h.first h.ordered.apart, List.forall_mem_cons.2 ⟨ht, h.ordered.nonempty⟩,
    List.forall_mem_cons.2 ⟨htype, h.ordered.type⟩, fun e he => ?_⟩,
    List.forall_mem_cons.2 ⟨le_rfl, fun u hu => ht.le.trans (h.first u hu)⟩,
    fun e he => ht.le.trans (h.last e he)⟩
  obtain ⟨htype, hbehind⟩ := h.ordered.ending e he
  exact ⟨htype, List.forall_mem_cons.2 ⟨h.last e he, hbehind⟩⟩

theorem scan_ordered (d : Dialect) (n : ℕ) (before : Option Char) (offset : ℕ)
    (text : List Char) : (scan d n before offset text).OrderedFrom offset := by
  induction n generalizing before offset text with
  | zero => exact orderedFrom_atEnd offset
  | succ n ih =>
    unfold scan
    split
    · exact orderedFrom_error offset _
    · exact orderedFrom_atEnd offset
    · exact (ih _ _ _).mono (Nat.le_add_right _ _)
    · next x hx =>
      have hcovers := Piece.next_covers hx
      exact (ih _ _ _).push (t := x.place offset) (Nat.lt_add_of_pos_right hcovers.pos)
        hcovers.type

/-- The tokens of a text stand one behind the other. -/
theorem ofText_ordered (d : Dialect) (text : List Char) : (ofText d text).Ordered :=
  (scan_ordered d _ none 0 text).ordered

end TokenStream

namespace Cursor

variable {c c' : Cursor}

/-- The cursor has tokens in their order in front of it, or it stands at the end of the text. -/
def Ordered (c : Cursor) : Prop :=
  TokenStream.Ordered ⟨c.rest, c.ahead.ending⟩ ∨
    (c.ahead.tokens = [] ∧ c.ahead.ending = .ok c.current ∧ c.current.type = .endOfText)

/-- Behind the first step the tokens are in their order. -/
theorem ordered_of_text {d : Dialect} {sql : String} (h : (ofText d sql).advance = .ok c) :
    c.Ordered := by
  have hall := TokenStream.ofText_ordered d sql.toList
  obtain ⟨t, ht, rfl⟩ := advance_ok.1 h
  rcases peek_ok.1 ht with ht | ⟨hnil, ht⟩
  · left
    obtain ⟨ts, hts⟩ := List.head?_eq_some_iff.1 ht
    have hts : (TokenStream.ofText d sql.toList).tokens = t :: ts := hts
    have hrest : t :: (TokenStream.ofText d sql.toList).tokens.tail =
        (TokenStream.ofText d sql.toList).tokens := by rw [hts]; rfl
    change TokenStream.Ordered ⟨t :: (TokenStream.ofText d sql.toList).tokens.tail, _⟩
    rw [hrest]
    exact hall
  · refine Or.inr ⟨?_, ht, (hall.ending t ht).1⟩
    change (ofText d sql).ahead.tokens.tail = []
    rw [hnil]
    rfl

/-- One step leads to a greater place, or stays at the end of the text. -/
theorem Ordered.step (h : c.Ordered) (hc : c.advance = .ok c') : c'.Ordered ∧
    (c.isAtEnd = true ∧ c'.current = c.current ∨
      c.isAtEnd = false ∧ c.current.start < c'.current.start) := by
  obtain ⟨t, ht, rfl⟩ := advance_ok.1 hc
  rcases h with h | ⟨hnil, hending, htype⟩
  · have hfront : c.isAtEnd = false := by
      simpa [isAtEnd] using h.type c.current List.mem_cons_self
    rcases peek_ok.1 ht with ht | ⟨hnil, ht⟩
    · obtain ⟨ts, hts⟩ := List.head?_eq_some_iff.1 ht
      have hrest : c.rest = c.current :: t :: ts := by rw [rest, hts]
      have hall := h
      rw [hrest] at hall
      obtain ⟨hle, hapart⟩ := List.pairwise_cons.1 hall.apart
      have hlt := hall.nonempty c.current List.mem_cons_self
      refine ⟨Or.inl ⟨?_, ?_, ?_, ?_⟩, Or.inr ⟨hfront, hlt.trans_le (hle t List.mem_cons_self)⟩⟩
      · simpa [rest, hts] using hapart
      · intro u hu
        exact hall.nonempty u (List.mem_cons_of_mem _ (by simpa [rest, hts] using hu))
      · intro u hu
        exact hall.type u (List.mem_cons_of_mem _ (by simpa [rest, hts] using hu))
      · intro e he
        refine ⟨(hall.ending e he).1, fun u hu => (hall.ending e he).2 u ?_⟩
        exact List.mem_cons_of_mem _ (by simpa [rest, hts] using hu)
    · obtain ⟨htype, hle⟩ := h.ending t ht
      refine ⟨Or.inr ⟨by simp [hnil], ht, htype⟩, Or.inr ⟨hfront, ?_⟩⟩
      exact (h.nonempty c.current List.mem_cons_self).trans_le (hle c.current List.mem_cons_self)
  · obtain rfl : t = c.current := by
      rcases peek_ok.1 ht with ht | ⟨-, ht⟩
      · simp [hnil] at ht
      · exact Except.ok.inj (ht.symm.trans hending)
    exact ⟨Or.inr ⟨by simp [hnil], hending, htype⟩, Or.inl ⟨by simp [isAtEnd, htype], rfl⟩⟩

theorem Ordered.reaches (h : c.Ordered) (hc : c.Reaches c') : c'.Ordered := by
  induction hc with
  | refl => exact h
  | tail _ hstep ih => exact (ih.step hstep).1

theorem Ordered.start_le (h : c.Ordered) (hc : c.Reaches c') :
    c.current.start ≤ c'.current.start := by
  induction hc with
  | refl => exact le_rfl
  | tail hreach hstep ih =>
    rcases ((h.reaches hreach).step hstep).2 with ⟨-, hsame⟩ | ⟨-, hlt⟩
    · exact hsame ▸ ih
    · exact ih.trans hlt.le

/-- At the end of the text the cursor stays. -/
theorem Ordered.atEnd (h : c.Ordered) (hc : c.Reaches c') (hend : c.isAtEnd = true) :
    c'.isAtEnd = true := by
  induction hc with
  | refl => exact hend
  | tail hreach hstep ih =>
    rcases ((h.reaches hreach).step hstep).2 with ⟨-, hsame⟩ | ⟨hfalse, -⟩
    · rw [isAtEnd, hsame]
      exact ih
    · rw [ih] at hfalse
      cases hfalse

/-- A cursor that has left a token stands behind its place, or at the end of the text. -/
theorem Ordered.passed {c₁ : Cursor} (h : c.Ordered) (hc : c.advance = .ok c₁)
    (hreach : c₁.Reaches c') : c.current.start < c'.current.start ∨ c'.isAtEnd = true := by
  obtain ⟨h₁, ⟨hend, hsame⟩ | ⟨-, hlt⟩⟩ := h.step hc
  · refine Or.inr (h₁.atEnd hreach ?_)
    rw [isAtEnd, hsame]
    exact hend
  · exact Or.inl (hlt.trans_le (h₁.start_le hreach))

end Cursor

end SqlFront

import SqlFront.Proofs.Cursor.Order
import SqlFront.Proofs.Lexeme.Closing
import SqlFront.Proofs.Lexeme.Tiling

/-!
# Places of tokens and comments

Every token stands in its text, a symbol in its one spelling. Comments stand between the tokens.
-/

set_option autoImplicit false

namespace SqlFront

variable {d : Dialect} {text rest : List Char} {t u : Token} {ts : List Token} {x : Lexeme}
  {s : Symbol} {a b k n : ℕ}

/-! ## Symbols -/

theorem Lexeme.longestSymbol?_spelling (h : longestSymbol? rest n = some (s, k)) :
    s.spelling = String.ofList (rest.take k) := by
  induction n with
  | zero => cases h
  | succ n ih =>
    simp only [longestSymbol?] at h
    split at h
    · next hs =>
      obtain ⟨rfl, rfl⟩ := Prod.mk.inj (Option.some.inj h)
      exact ofSpelling?_spelling hs
    · exact ih h

theorem Lexeme.symbol_spelling (h : symbol rest = .ok x) (hx : x.type = .symbol s) :
    s.spelling = String.ofList (rest.take x.length) := by
  simp only [symbol] at h
  split at h
  · next s' k hs =>
    obtain rfl := Except.ok.inj h
    obtain rfl : s' = s := TokenType.symbol.inj hx
    exact longestSymbol?_spelling hs
  · cases h

theorem Lexeme.symbol_length (h : symbol rest = .ok x) (hx : x.type = .symbol s) :
    x.length = s.spelling.length := by
  rw [symbol_spelling h hx, String.length_ofList, List.length_take]
  exact (Nat.min_eq_left (symbol_covers h).le).symm

theorem Lexeme.symbol_literals (h : symbol rest = .ok x) (hx : x.type = .symbol s) :
    x.literals = s.spelling :=
  ((symbol_covers h).spelled (by simp [hx])).trans (symbol_spelling h hx).symm

theorem Lexeme.quotedString_type (h : quotedString rest = .ok x) : x.type = .literal .chars := by
  simp only [quotedString] at h
  split at h
  · rw [← Except.ok.inj h]
  · cases h

theorem Lexeme.word_cases (h : word d rest = .ok x) :
    x.type = .literal .identifier ∨ ∃ k, x.type = .keyword k := by
  simp only [word] at h
  split at h
  · simp only [quotedWord] at h
    split at h
    · rw [← Except.ok.inj h]
      exact .inl rfl
    · cases h
  · rw [← Except.ok.inj h]
    exact wordType_cases d _ _

theorem Piece.significant_symbol {before : Option Char}
    (h : significant d before rest = .ok (.lexeme x)) (hx : x.type = .symbol s) :
    Lexeme.symbol rest = .ok x := by
  cases significant_reads h with
  | variableName _ => cases hx
  | national _ _ hy => cases (Lexeme.quotedString_type hy).symm.trans hx
  | word _ hword =>
    rcases Lexeme.word_cases hword with htype | ⟨_, htype⟩ <;> cases htype.symm.trans hx
  | hex _ _ => cases hx
  | number _ => cases hx
  | symbol hsymbol => exact hsymbol
  | string _ hy => cases (Lexeme.quotedString_type hy).symm.trans hx

theorem Piece.significant_of_next {before : Option Char}
    (h : next d before rest = .ok (.lexeme x)) : significant d before rest = .ok (.lexeme x) := by
  unfold next at h
  split at h
  · cases h
  · exact h
  · cases h

/-! ## Tokens -/

namespace TokenStream

/-- A token of a text is a lexeme in front at some place. -/
theorem mem_scan {before : Option Char} {offset : ℕ}
    (h : t ∈ (scan d n before offset text).tokens) : ∃ k before x,
      Piece.significant d before (text.drop k) = .ok (.lexeme x) ∧ t = x.place (offset + k) := by
  induction n generalizing before offset text with
  | zero => cases h
  | succ n ih =>
    unfold scan at h
    split at h
    · cases h
    · cases h
    · obtain ⟨j, before, x, hx, rfl⟩ := ih h
      rw [List.drop_drop] at hx
      exact ⟨_, before, x, hx, by rw [Nat.add_assoc]⟩
    · next x hx =>
      rcases List.mem_cons.1 h with rfl | h
      · refine ⟨0, before, x, ?_, rfl⟩
        exact Piece.significant_of_next hx
      · obtain ⟨j, before, y, hy, rfl⟩ := ih h
        rw [List.drop_drop] at hy
        exact ⟨_, before, y, hy, by rw [Nat.add_assoc]⟩

theorem standsIn (h : t ∈ (ofText d text).tokens) : t.StandsIn text := by
  obtain ⟨k, before, x, hx, rfl⟩ := mem_scan h
  rw [Nat.zero_add]
  exact (Piece.significant_covers hx).standsIn

theorem symbol_stop (h : t ∈ (ofText d text).tokens) (ht : t.type = .symbol s) :
    t.stop = t.start + s.spelling.length := by
  obtain ⟨k, before, x, hx, rfl⟩ := mem_scan h
  exact congrArg _ (Lexeme.symbol_length (Piece.significant_symbol hx ht) ht)

theorem symbol_literals (h : t ∈ (ofText d text).tokens) (ht : t.type = .symbol s) :
    t.literals = s.spelling := by
  obtain ⟨k, before, x, hx, rfl⟩ := mem_scan h
  exact Lexeme.symbol_literals (Piece.significant_symbol hx ht) ht

theorem stop_le {before behind : List Token} (h : (ofText d text).tokens = before ++ t :: behind)
    (hu : u ∈ behind) : t.stop ≤ u.start := by
  have hpair := (ofText_ordered d text).apart
  rw [h, List.pairwise_append, List.pairwise_cons] at hpair
  exact hpair.2.1.1 u hu

/-- Of two tokens one is behind the other. -/
theorem apart (ht : t ∈ (ofText d text).tokens) (hu : u ∈ (ofText d text).tokens) :
    t = u ∨ t.stop ≤ u.start ∨ u.stop ≤ t.start := by
  obtain ⟨before, behind, hsplit⟩ := List.append_of_mem ht
  have hmem := hu
  rw [hsplit, List.mem_append, List.mem_cons] at hmem
  rcases hmem with hmem | rfl | hmem
  · obtain ⟨us, vs, rfl⟩ := List.append_of_mem hmem
    have hfirst : (ofText d text).tokens = us ++ u :: (vs ++ t :: behind) := by simp [hsplit]
    exact Or.inr (Or.inr (stop_le hfirst (by simp)))
  · exact Or.inl rfl
  · exact Or.inr (Or.inl (stop_le hsplit hmem))

end TokenStream

/-! ## Comments -/

def IsComment (lexis : Lexis) (rest : List Char) (k : ℕ) : Prop :=
  IsLineComment lexis rest k ∨ CutsLine lexis rest k ∨ IsBlockComment rest k

structure CommentAt (d : Dialect) (text : List Char) (a b : ℕ) : Prop where
  comment : ∃ k, IsComment d.lexis (text.drop a) k ∧ b = a + k
  ignored : ∃ n, (n = 0 ∨ ∃ t ∈ (TokenStream.ofText d text).tokens, n = t.stop) ∧
    SkippedBetween d.lexis text n a
  apart : ∀ t ∈ (TokenStream.ofText d text).tokens, b ≤ t.start ∨ t.stop ≤ a

theorem IsComment.two_le {lexis : Lexis} (h : IsComment lexis rest k) (hk : k < rest.length) :
    2 ≤ k := by
  rcases h with ⟨o, r, ho, rfl, rfl⟩ | ⟨o, body, r, ho, -, -, -, rfl⟩ | ⟨body, r, -, -, rfl⟩
  · have hopening : 0 < o.length := by rcases ho with rfl | rfl | ⟨-, rfl⟩ <;> decide
    rw [List.length_append] at hk
    unfold lineLength at hk ⊢
    omega
  · have hopening : 0 < o.length := by rcases ho with rfl | rfl | ⟨-, rfl⟩ <;> decide
    omega
  · omega

theorem CommentAt.two_le (h : CommentAt d text a b) (hb : b < text.length) : a + 2 ≤ b := by
  obtain ⟨k, hk, rfl⟩ := h.comment
  have hlen := hk.two_le (by rw [List.length_drop]; omega)
  omega

end SqlFront

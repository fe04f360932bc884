import SqlFront.Proofs.Lexeme.Extent

/-!
# The literals of a token and the text at its place

The literals of every token but a string are what stands at its place. A string leaves out its
quotes, so that its literals begin one character behind its place: they are repeated at the place
itself only when they are nothing but quotes.
-/

set_option autoImplicit false

namespace SqlFront

def InFront (l : String) (rest : List Char) : Prop := l ≠ "" ∧ l.toList <+: rest

/-- The literals of a string that its own front repeats: quotes without anything between them, or
the letter that marks a national string. -/
def RepeatsFront (l : String) (front : Char) : Prop :=
  l ≠ "" ∧ (∀ c ∈ l.toList, c = front) ∧ (isQuote front = true ∨ l.toList.length = 1)

structure Lexeme.Fronts (x : Lexeme) (rest : List Char) : Prop where
  spelled : x.type ≠ .literal .chars → InFront x.literals rest
  string : x.type = .literal .chars →
    (InFront x.literals rest ↔ RepeatsFront x.literals (charAt rest 0))

/-! ## Lists of characters -/

theorem ofList_take_inFront {n : ℕ} {rest : List Char} (hn : 0 < n) (hrest : rest ≠ []) :
    InFront (String.ofList (rest.take n)) rest := by
  refine ⟨fun h => ?_, by simpa using List.take_prefix n rest⟩
  have hnil : rest.take n = [] := by simpa using congrArg String.toList h
  rcases List.take_eq_nil_iff.1 hnil with h | h
  · omega
  · exact hrest h

theorem prefix_cons_append_iff {q : Char} {l r : List Char} :
    l <+: q :: (l ++ r) ↔ ∀ c ∈ l, c = q := by
  induction l generalizing q r with
  | nil => simp
  | cons a l ih =>
    rw [List.cons_prefix_cons, List.forall_mem_cons]
    constructor
    · rintro ⟨rfl, h⟩
      exact ⟨rfl, ih.1 h⟩
    · rintro ⟨rfl, h⟩
      exact ⟨rfl, ih.2 h⟩

/-! ## Quoted text -/

namespace Quoted

theorem closing?_doubled {a q : Char} {rest : List Char} {n : ℕ}
    (h : closing? q (a :: q :: rest) = some n) (ha : a ≠ q) (hn : 2 < n) :
    3 < n ∧ ∃ rest', rest = q :: rest' := by
  simp only [closing?, if_neg ha] at h
  obtain ⟨m, hm, rfl⟩ := Option.map_eq_some_iff.1 h
  cases rest with
  | nil =>
    simp only [closing?] at hm
    split at hm
    · obtain rfl := Option.some.inj hm
      omega
    · cases hm
  | cons c rest =>
    by_cases hc : c = q
    · simp only [closing?, if_true, if_pos hc] at hm
      obtain ⟨k, hk, rfl⟩ := Option.map_eq_some_iff.1 hm
      obtain ⟨content, r, -, rfl⟩ := closing?_content hk
      exact ⟨by omega, rest, hc ▸ rfl⟩
    · simp only [closing?, if_true, if_neg hc] at hm
      obtain rfl := Option.some.inj hm
      omega

theorem content_eq_singleton {a q : Char} {content r : List Char} (ha : a ≠ q)
    (hclose : closing? q (content ++ q :: r) = some (content.length + 1)) (hne : content ≠ [])
    (hp : content <+: a :: q :: (content ++ q :: r)) : content = [a] := by
  obtain ⟨b, content, rfl⟩ := List.exists_cons_of_ne_nil hne
  obtain ⟨rfl, hp₁⟩ := List.cons_prefix_cons.1 hp
  cases content with
  | nil => rfl
  | cons b' content =>
    obtain ⟨rfl, hp₂⟩ := List.cons_prefix_cons.1 hp₁
    obtain ⟨hlen, rest, hrest⟩ := closing?_doubled hclose ha (by simp)
    cases content with
    | nil => simp at hlen
    | cons c content =>
      obtain ⟨rfl, -⟩ := List.cons_prefix_cons.1 hp₂
      exact (ha (List.cons.inj hrest).1).elim

end Quoted

theorem Encloses.inFront_iff {l : String} {rest : List Char} {n : ℕ} (h : Encloses l rest n) :
    InFront l rest ↔ RepeatsFront l (charAt rest 0) := by
  cases h with
  | @plain q r hq hclose =>
    have hfront : isQuote q = true := by rcases hq with rfl | rfl <;> decide
    unfold InFront RepeatsFront
    rw [prefix_cons_append_iff]
    constructor
    · rintro ⟨hne, hall⟩
      exact ⟨hne, hall, Or.inl hfront⟩
    · rintro ⟨hne, hall, -⟩
      exact ⟨hne, hall⟩
  | @national a r ha hclose =>
    have hletter : isQuote a = false := by rcases ha with rfl | rfl <;> decide
    have hquote : a ≠ '\'' := by rcases ha with rfl | rfl <;> decide
    unfold InFront RepeatsFront
    constructor
    · rintro ⟨hne, hp⟩
      have hsingle : l.toList = [a] := Quoted.content_eq_singleton hquote hclose
        (fun hnil => hne (String.toList_eq_nil_iff.1 hnil)) hp
      rw [hsingle]
      exact ⟨hne, fun c hc => List.mem_singleton.1 hc, Or.inr rfl⟩
    · rintro ⟨hne, hall, hlen⟩
      have hone : l.toList.length = 1 := hlen.resolve_left fun h => by
        rw [show charAt _ 0 = a from rfl, hletter] at h
        cases h
      obtain ⟨c, hc⟩ := List.length_eq_one_iff.1 hone
      have hca : c = a := hall c (by rw [hc]; exact List.mem_singleton_self c)
      refine ⟨hne, ?_⟩
      rw [hc, hca]
      simp

/-- What a lexeme takes decides what its literals have to do with the text at its place. -/
theorem Lexeme.Covers.fronts {x : Lexeme} {rest : List Char} (h : x.Covers rest) :
    x.Fronts rest := by
  have hrest : rest ≠ [] := by
    rintro rfl
    have hle := h.le
    have hpos := h.pos
    simp only [List.length_nil] at hle
    omega
  constructor
  · intro ht
    rw [h.spelled ht]
    exact ofList_take_inFront h.pos hrest
  · intro ht
    exact (h.string ht).inFront_iff

/-! ## Tokens -/

/-- Every token of a text has its literals from its place. -/
theorem TokenStream.scan_fronts {d : Dialect} {text : List Char} {n : ℕ} {before : Option Char}
    {offset : ℕ} {t : Token}
    (h : t ∈ (TokenStream.scan d n before offset (text.drop offset)).tokens) :
    ∃ x : Lexeme, t.type = x.type ∧ t.literals = x.literals ∧ x.Fronts (text.drop t.start) := by
  induction n generalizing before offset with
  | zero => simp [TokenStream.scan] at h
  | succ n ih =>
    unfold TokenStream.scan at h
    split at h
    · simp at h
    · simp at h
    · rw [List.drop_drop] at h
      exact ih h
    · next x hx =>
      rcases List.mem_cons.1 h with rfl | h
      · exact ⟨x, rfl, rfl, (Piece.next_covers hx).fronts⟩
      · rw [List.drop_drop] at h
        exact ih h

/-- The end of the text is none of its tokens. -/
theorem TokenStream.scan_type {d : Dialect} {n : ℕ} {before : Option Char} {offset : ℕ}
    {rest : List Char} {t : Token} (h : t ∈ (TokenStream.scan d n before offset rest).tokens) :
    t.type ≠ .endOfText := by
  induction n generalizing before offset rest with
  | zero => simp [TokenStream.scan] at h
  | succ n ih =>
    unfold TokenStream.scan at h
    split at h
    · simp at h
    · simp at h
    · exact ih h
    · next x hx =>
      rcases List.mem_cons.1 h with rfl | h
      · exact (Piece.next_covers hx).type
      · exact ih h

end SqlFront

import SqlFront.Proofs.Cursor.Facing
import SqlFront.Proofs.Lexeme.Extent
import SqlFront.Proofs.Lexeme.Gap

/-!
# The tokens of a text and the text between them

The tokens stand in the text one behind the other, each with the literals that stand at its place,
up to the end of the text. Between two of them is ignored text, as long as no end mark cuts a
comment of one line.
-/

set_option autoImplicit false

namespace SqlFront

variable {d : Dialect} {text : List Char} {n m : ℕ} {t : Token} {ts : List Token}

/-! ## Tokens in their places -/

inductive Quotes (l : String) : List Char → Prop
  | plain {q : Char} : q = '\'' ∨ q = '"' → Quotes l (q :: (l.toList ++ [q]))
  | national {n : Char} : n = 'N' ∨ n = 'n' → Quotes l (n :: '\'' :: (l.toList ++ ['\'']))

theorem Encloses.quotes {l : String} {rest : List Char} (h : Encloses l rest n) :
    Quotes l (rest.take n) := by
  cases h with
  | @plain q r hq =>
    have htake : (q :: (l.toList ++ q :: r)).take (l.toList.length + 2) =
        q :: (l.toList ++ [q]) := by simp [List.take_append]
    rw [htake]
    exact .plain hq
  | @national a r ha =>
    have htake : (a :: '\'' :: (l.toList ++ '\'' :: r)).take (l.toList.length + 3) =
        a :: '\'' :: (l.toList ++ ['\'']) := by simp [List.take_append]
    rw [htake]
    exact .national ha

def between (text : List Char) (n m : ℕ) : List Char := (text.take m).drop n

structure Token.StandsIn (t : Token) (text : List Char) : Prop where
  nonempty : t.start < t.stop
  stop : t.stop ≤ text.length
  type : t.type ≠ .endOfText
  literals : t.type ≠ .literal .chars → t.literals = slice text t.start t.stop
  string : t.type = .literal .chars → Quotes t.literals (between text t.start t.stop)

theorem Lexeme.Covers.standsIn {x : Lexeme} (h : x.Covers (text.drop n)) :
    (x.place n).StandsIn text := by
  have hle := h.le
  have hpos := h.pos
  rw [List.length_drop] at hle
  have hbetween : between text n (n + x.length) = (text.drop n).take x.length := by
    unfold between
    rw [List.drop_take, Nat.add_sub_cancel_left]
  constructor
  · change n < n + x.length
    omega
  · change n + x.length ≤ text.length
    omega
  · exact h.type
  · intro ht
    exact (h.spelled ht).trans (congrArg String.ofList hbetween.symm)
  · intro ht
    have hquotes := (h.string ht).quotes
    rw [← hbetween] at hquotes
    exact hquotes

/-! ## The whole text -/

inductive Tiling (text : List Char) (Gap : ℕ → ℕ → Prop) : ℕ → List Token → Prop
  | last {n : ℕ} : Gap n text.length → Tiling text Gap n [Token.atEnd text.length]
  | token {n : ℕ} {t : Token} {ts : List Token} : Gap n t.start → t.StandsIn text →
      Tiling text Gap t.stop ts → Tiling text Gap n (t :: ts)

theorem Piece.next_atEnd {before : Option Char} {rest : List Char}
    (h : Piece.next d before rest = .ok .atEnd) : rest = [] := by
  have hhere : ∀ r, Piece.here r ≠ .ok .atEnd := by
    rintro (cause | x) <;> simp [Piece.here]
  have hnational : Piece.nationalString rest ≠ .ok .atEnd := by
    unfold Piece.nationalString
    split <;> simp
  have hsignificant : Piece.significant d before rest = .ok .atEnd := by
    unfold Piece.next at h
    split at h
    · cases h
    · exact h
    · cases h
  simp only [Piece.significant] at hsignificant
  split at hsignificant
  · cases hsignificant
  split at hsignificant
  · exact (hnational hsignificant).elim
  split at hsignificant
  · exact (hhere _ hsignificant).elim
  split at hsignificant
  · cases hsignificant
  split at hsignificant
  · cases hsignificant
  split at hsignificant
  · exact (hhere _ hsignificant).elim
  split at hsignificant
  · exact (hhere _ hsignificant).elim
  split at hsignificant
  · next hempty => exact List.isEmpty_iff.1 hempty
  · cases hsignificant

theorem Piece.next_ignored {before : Option Char} {rest : List Char} {k : ℕ}
    (h : Piece.next d before rest = .ok (.ignored k)) :
    0 < k ∧ Ignored.stretch d.lexis rest = .ok k := by
  have hsignificant : ∀ k, Piece.significant d before rest ≠ .ok (.ignored k) := by
    have hhere : ∀ r k, Piece.here r ≠ .ok (.ignored k) := by
      rintro (cause | x) k <;> simp [Piece.here]
    have hnational : ∀ k, Piece.nationalString rest ≠ .ok (.ignored k) := by
      intro k
      unfold Piece.nationalString
      split <;> simp
    intro k h
    simp only [Piece.significant] at h
    split at h
    · cases h
    split at h
    · exact hnational k h
    split at h
    · exact hhere _ k h
    split at h
    · cases h
    split at h
    · cases h
    split at h
    · exact hhere _ k h
    split at h
    · exact hhere _ k h
    split at h
    · cases h
    · cases h
  unfold Piece.next at h
  split at h
  · cases h
  · exact (hsignificant k h).elim
  · next j hne hj =>
    obtain rfl : j = k := by simpa using h
    exact ⟨Nat.pos_of_ne_zero hne, hj⟩

theorem SkippedBetween.le_length (h : SkippedBetween d.lexis text n m) (hn : n ≤ text.length) :
    m ≤ text.length := by
  induction h with
  | refl => exact hn
  | @tail i j _ hstep ih =>
    obtain ⟨k, hk, rfl⟩ := hstep
    have hle : k ≤ (text.drop i).length := by
      rcases hk with (⟨hb, rfl⟩ | ⟨o, r, -, hr, rfl⟩ | ⟨body, r, hr, -, rfl⟩) |
        ⟨o, body, r, -, hr, -, -, rfl⟩
      · apply lt_length_of_charAt
        intro h
        rw [h] at hb
        exact absurd hb (by decide)
      · rw [hr, List.length_append, lineLength]
        omega
      · rw [hr]
        simp only [List.length_cons, List.length_append]
        omega
      · rw [hr]
        simp only [List.length_cons, List.length_append]
        omega
    rw [List.length_drop] at hle
    omega

theorem TokenStream.scan_tiling {k : ℕ} {before : Option Char} {offset : ℕ} {e : Token}
    (hk : (text.drop offset).length ≤ k) (ho : offset ≤ text.length)
    (hgap : SkippedBetween d.lexis text n offset)
    (h : (TokenStream.scan d k before offset (text.drop offset)).ending = .ok e) :
    Tiling text (SkippedBetween d.lexis text) n
      ((TokenStream.scan d k before offset (text.drop offset)).tokens ++ [e]) := by
  induction k generalizing n before offset with
  | zero =>
    have hempty : (text.drop offset).length = 0 := Nat.le_zero.1 hk
    rw [List.length_drop] at hempty
    obtain rfl : offset = text.length := by omega
    obtain rfl := Except.ok.inj h
    exact .last hgap
  | succ k ih =>
    rw [List.length_drop] at hk
    unfold TokenStream.scan at h ⊢
    split at h
    · cases h
    · next hend =>
      have hnil := congrArg List.length (Piece.next_atEnd hend)
      rw [List.length_drop, List.length_nil] at hnil
      obtain rfl : offset = text.length := by omega
      obtain rfl := Except.ok.inj h
      exact .last hgap
    · next j hj =>
      obtain ⟨hpos, hstretch⟩ := Piece.next_ignored hj
      have hskipped := Ignored.stretch_skipped hstretch
      rw [List.drop_drop] at h ⊢
      apply ih (by rw [List.length_drop]; omega) (hskipped.le_length ho) (hgap.trans hskipped) h
    · next x hx =>
      have hcovers := Piece.next_covers hx
      have hle := hcovers.le
      have hpos := hcovers.pos
      rw [List.length_drop] at hle
      rw [List.drop_drop] at h ⊢
      have hbehind := ih (n := offset + x.length) (by rw [List.length_drop]; omega) (by omega)
        Relation.ReflTransGen.refl h
      exact .token hgap hcovers.standsIn hbehind

/-- The tokens of a text up to its end tile it, with what the lexer ignores between them. -/
theorem TokenStream.all_tiling (h : (TokenStream.ofText d text).all = .ok ts) :
    Tiling text (SkippedBetween d.lexis text) 0 ts := by
  unfold TokenStream.all at h
  split at h
  · next e he =>
    obtain rfl := Except.ok.inj h
    have hstart : SkippedBetween d.lexis text 0 0 := Relation.ReflTransGen.refl
    exact scan_tiling (Nat.le_refl _) (Nat.zero_le _) hstart he
  · cases h

/-! ## What a tiling gives -/

def gaps : ℕ → List Token → List (ℕ × ℕ)
  | _, [] => []
  | n, t :: ts => (n, t.start) :: gaps t.stop ts

structure InOrder (text : List Char) (ts : List Token) : Prop where
  placed : ∀ t ∈ ts, t.start ≤ t.stop ∧ t.stop ≤ text.length
  ordered : ts.Pairwise fun t u => t.stop ≤ u.start
  ended : ∃ us, ts = us ++ [Token.atEnd text.length] ∧ ∀ t ∈ us, t.StandsIn text
  counted : ts.length ≤ text.length + 1

namespace Tiling

variable {Gap : ℕ → ℕ → Prop}

theorem gaps (h : Tiling text Gap n ts) : ∀ g ∈ SqlFront.gaps n ts, Gap g.1 g.2 := by
  induction h with
  | last hgap => simpa [SqlFront.gaps, Token.atEnd] using hgap
  | token hgap _ _ ih =>
    rintro g (_ | ⟨_, hg⟩)
    · exact hgap
    · exact ih g hg

theorem ended (h : Tiling text Gap n ts) :
    ∃ us, ts = us ++ [Token.atEnd text.length] ∧ ∀ t ∈ us, t.StandsIn text := by
  induction h with
  | last => exact ⟨[], rfl, by simp⟩
  | @token n t ts _ hstands _ ih =>
    obtain ⟨us, rfl, hus⟩ := ih
    exact ⟨t :: us, rfl, List.forall_mem_cons.2 ⟨hstands, hus⟩⟩

theorem placed (h : Tiling text Gap n ts) : ∀ t ∈ ts, t.start ≤ t.stop ∧ t.stop ≤ text.length := by
  obtain ⟨us, rfl, hus⟩ := h.ended
  intro t ht
  rcases List.mem_append.1 ht with ht | ht
  · exact ⟨(hus t ht).nonempty.le, (hus t ht).stop⟩
  · obtain rfl := List.mem_singleton.1 ht
    exact ⟨Nat.le_refl _, Nat.le_refl _⟩

theorem start_le (hgap : ∀ i j, Gap i j → i ≤ j) (h : Tiling text Gap n ts) :
    ∀ t ∈ ts, n ≤ t.start := by
  induction h with
  | last h =>
    intro t ht
    obtain rfl := List.mem_singleton.1 ht
    exact hgap _ _ h
  | token h hstands _ ih =>
    have hle := hgap _ _ h
    have hne := hstands.nonempty
    refine List.forall_mem_cons.2 ⟨hle, fun u hu => ?_⟩
    have hbehind := ih u hu
    omega

theorem ordered (hgap : ∀ i j, Gap i j → i ≤ j) (h : Tiling text Gap n ts) :
    ts.Pairwise fun t u => t.stop ≤ u.start := by
  induction h with
  | last => exact List.pairwise_singleton _ _
  | token _ _ hbehind ih => exact List.pairwise_cons.2 ⟨start_le hgap hbehind, ih⟩

/-- Each token but the last takes a character at least. -/
theorem counted (hgap : ∀ i j, Gap i j → i ≤ j) (h : Tiling text Gap n ts) :
    n + ts.length ≤ text.length + 1 := by
  induction h with
  | last h =>
    have hle := hgap _ _ h
    simpa using hle
  | token h hstands _ ih =>
    have hle := hgap _ _ h
    have hne := hstands.nonempty
    rw [List.length_cons]
    omega

theorem inOrder (hgap : ∀ i j, Gap i j → i ≤ j) (h : Tiling text Gap 0 ts) : InOrder text ts where
  placed := h.placed
  ordered := h.ordered hgap
  ended := h.ended
  counted := by
    have hcount := h.counted hgap
    omega

end Tiling

/-! ## Reading on -/

namespace Cursor

def steps : ℕ → Cursor → Except Fault Cursor
  | 0, c => .ok c
  | n + 1, c => c.steps n >>= advance

/-- Step by step a cursor stands on the tokens, and on the end of the text from there on. -/
theorem steps_current {sql : String} {e : Token}
    (he : (TokenStream.ofText d sql.toList).ending = .ok e) (n : ℕ) :
    ∃ c, (ofText d sql).steps (n + 1) = .ok c ∧
      c.ahead = ⟨(TokenStream.ofText d sql.toList).tokens.drop (n + 1), .ok e⟩ ∧
      c.current = (TokenStream.ofText d sql.toList).tokens.getD n e := by
  have hstep : ∀ (c : Cursor) (ts : List Token), c.ahead = ⟨ts, .ok e⟩ →
      ∃ c', c.advance = .ok c' ∧ c'.ahead = ⟨ts.tail, .ok e⟩ ∧ c'.current = ts.headD e := by
    intro c ts hc
    have hpeek : c.peek = .ok (ts.headD e) := by
      rw [peek, hc]
      cases ts <;> rfl
    exact ⟨_, advance_ok.2 ⟨_, hpeek, rfl⟩, by rw [hc], rfl⟩
  induction n with
  | zero =>
    have hfirst : (ofText d sql).ahead = ⟨(TokenStream.ofText d sql.toList).tokens, .ok e⟩ := by
      rw [← he]
      rfl
    obtain ⟨c, hc, hahead, hcurrent⟩ := hstep _ _ hfirst
    refine ⟨c, hc, by rw [hahead, List.drop_one], ?_⟩
    rw [hcurrent, List.headD_eq_head?_getD, List.getD_eq_getElem?_getD, List.head?_eq_getElem?]
  | succ n ih =>
    obtain ⟨c, hc, hahead, -⟩ := ih
    obtain ⟨c', hc', hahead', hcurrent'⟩ := hstep c _ hahead
    refine ⟨c', by rw [steps, hc]; exact hc', by rw [hahead', List.tail_drop], ?_⟩
    rw [hcurrent', List.headD_eq_head?_getD, List.head?_drop, List.getD_eq_getElem?_getD]

end Cursor

/-- The tokens of a text tile it: they stand in order up to the end of the text, where the cursor
stays, and between them is ignored text unless an end mark cuts a comment of one line that does
not go on as ignored text up to the next token. -/
theorem tokens_tile_iff {d : Dialect} {sql : String} {ts : List Token}
    (h : (TokenStream.ofText d sql.toList).all = .ok ts) :
    InOrder sql.toList ts ∧
      (∀ n, ∃ c, (Cursor.ofText d sql).steps (n + 1) = .ok c ∧
        c.current = ts.getD n (Token.atEnd sql.toList.length)) ∧
      (∀ g ∈ gaps 0 ts, SkippedBetween d.lexis sql.toList g.1 g.2) ∧
      ((∀ g ∈ gaps 0 ts, IgnoredBetween d.lexis sql.toList g.1 g.2) ↔
        ∀ g ∈ gaps 0 ts, ∀ m k, IgnoredBetween d.lexis sql.toList g.1 m →
          CutsLine d.lexis (sql.toList.drop m) k → m + k ≤ g.2 →
            IgnoredBetween d.lexis sql.toList m g.2) := by
  have htiling := TokenStream.all_tiling h
  have hgaps := htiling.gaps
  refine ⟨htiling.inOrder fun i j => Concatenates.le, fun n => ?_, hgaps,
    forall₂_congr fun g hg => (hgaps g hg).ignored_iff⟩
  obtain ⟨us, hts, -⟩ := htiling.ended
  unfold TokenStream.all at h
  split at h
  · next e he =>
    obtain rfl := Except.ok.inj h
    obtain ⟨htokens, hlast⟩ := List.append_inj' hts rfl
    obtain rfl : e = Token.atEnd sql.toList.length := List.singleton_inj.1 hlast
    obtain ⟨c, hc, -, hcurrent⟩ := Cursor.steps_current he n
    refine ⟨c, hc, ?_⟩
    rw [hcurrent]
    by_cases hn : n < (TokenStream.ofText d sql.toList).tokens.length
    · rw [List.getD_append _ _ _ _ hn]
    · rw [List.getD_append_right _ _ _ _ (by omega), List.getD_eq_default _ _ (by omega)]
      cases n - (TokenStream.ofText d sql.toList).tokens.length <;> rfl
  · cases h

theorem tokens_tile_iff_comment :
    (TokenStream.ofText .mysql "SELECT 1 -- a".toList).all =
      .ok [⟨.keyword .SELECT, "SELECT", 0, 6⟩, ⟨.literal .int, "1", 7, 8⟩, Token.atEnd 13] ∧
    ((Cursor.ofText .mysql "SELECT 1 -- a").steps 9).map Cursor.current = .ok (Token.atEnd 13) ∧
    IgnoredBetween Dialect.mysql.lexis "SELECT 1 -- a".toList 8 13 := by
  have hall : (TokenStream.ofText .mysql "SELECT 1 -- a".toList).all =
      .ok [⟨.keyword .SELECT, "SELECT", 0, 6⟩, ⟨.literal .int, "1", 7, 8⟩, Token.atEnd 13] := by
    decide +kernel
  obtain ⟨-, hsteps, -, hiff⟩ := tokens_tile_iff hall
  obtain ⟨c, hc, hcurrent⟩ := hsteps 8
  have hgaps := hiff.2 fun g _ m k _ hcut _ => by
    have hmem := List.mem_of_mem_drop hcut.endMark_mem
    exact absurd hmem (by decide)
  exact ⟨hall, by rw [hc]; exact congrArg Except.ok hcurrent, hgaps (8, 13) (by decide)⟩

/-- The end mark in a comment of one line ends it, and what stands behind the mark becomes a token
with a gap in front that is no ignored text. -/
theorem end_mark_ends_comment : ∃ ts,
    (TokenStream.ofText .mysql "SELECT 1 -- a\x1ab".toList).all = .ok ts ∧
      ∃ g ∈ gaps 0 ts, ¬IgnoredBetween Dialect.mysql.lexis "SELECT 1 -- a\x1ab".toList g.1 g.2 := by
  refine ⟨[⟨.keyword .SELECT, "SELECT", 0, 6⟩, ⟨.literal .int, "1", 7, 8⟩,
    ⟨.literal .identifier, "b", 14, 15⟩, Token.atEnd 15], by decide +kernel, (8, 14), by decide,
    fun h => ?_⟩
  have hblank : IgnoredBetween Dialect.mysql.lexis "SELECT 1 -- a\x1ab".toList 8 9 :=
    Concatenates.single (n := 8) (k := 1) (Or.inl ⟨by decide, rfl⟩)
  have hcomment : IsIgnored Dialect.mysql.lexis ("SELECT 1 -- a\x1ab".toList.drop 9) 6 :=
    Or.inr (Or.inl ⟨['-', '-'], _, Or.inl rfl, rfl, by decide⟩)
  have hrest := IgnoredBetween.between h hblank (by decide)
  rcases Relation.ReflTransGen.cases_head hrest with heq | ⟨m, ⟨k, hk, rfl⟩, hbehind⟩
  · exact absurd heq (by decide)
  · have hle := Concatenates.le hbehind
    rw [hk.unique hcomment] at hle
    exact absurd hle (by decide)

end SqlFront

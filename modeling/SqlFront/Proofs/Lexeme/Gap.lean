import Mathlib
import SqlFront.Lexeme.Ignored

/-!
# Ignored text

Between two tokens stand blanks and comments; a hint is a comment whose opening goes on with a mark
of the dialect. The lexer agrees with one exception: an end mark that the text itself has ends a
comment of one line early.
-/

set_option autoImplicit false

namespace SqlFront

variable {d : Dialect} {lexis : Lexis} {text rest : List Char} {c : Char} {k n m : ℕ}

def OpensLine (lexis : Lexis) (o : List Char) : Prop :=
  o = ['-', '-'] ∨ o = ['/', '/'] ∨ lexis.poundComment = true ∧ o = ['#']

def lineLength (rest : List Char) : ℕ :=
  min ((rest.takeWhile fun c => c != '\n').length + 1) rest.length

def IsLineComment (lexis : Lexis) (rest : List Char) (k : ℕ) : Prop :=
  ∃ o r, OpensLine lexis o ∧ rest = o ++ r ∧ k = o.length + lineLength r

def IsBlockComment (rest : List Char) (k : ℕ) : Prop :=
  ∃ body r, rest = '/' :: '*' :: (body ++ '*' :: '/' :: r) ∧ ¬['*', '/'] <:+: body ++ ['*'] ∧
    k = body.length + 4

def IsIgnored (lexis : Lexis) (rest : List Char) (k : ℕ) : Prop :=
  Character.isBlank (charAt rest 0) = true ∧ k = 1 ∨ IsLineComment lexis rest k ∨
    IsBlockComment rest k

def CutsLine (lexis : Lexis) (rest : List Char) (k : ℕ) : Prop :=
  ∃ o body r, OpensLine lexis o ∧ rest = o ++ (body ++ endMark :: r) ∧ '\n' ∉ body ∧
    endMark ∉ body ∧ k = o.length + body.length + 1

def Concatenates (P : List Char → ℕ → Prop) (text : List Char) : ℕ → ℕ → Prop :=
  Relation.ReflTransGen fun n m => ∃ k, P (text.drop n) k ∧ m = n + k

/-- From one place to the other the text is a concatenation of blanks and complete comments. -/
abbrev IgnoredBetween (lexis : Lexis) : List Char → ℕ → ℕ → Prop :=
  Concatenates (IsIgnored lexis)

/-- What the lexer ignores: besides blanks and complete comments also line comments up to an end
mark. -/
abbrev SkippedBetween (lexis : Lexis) : List Char → ℕ → ℕ → Prop :=
  Concatenates fun rest k => IsIgnored lexis rest k ∨ CutsLine lexis rest k

theorem Concatenates.le {P : List Char → ℕ → Prop} (h : Concatenates P text n m) : n ≤ m := by
  induction h with
  | refl => exact Nat.le_refl n
  | tail _ h ih =>
    obtain ⟨k, -, rfl⟩ := h
    omega

theorem Concatenates.single {P : List Char → ℕ → Prop} (h : P (text.drop n) k) :
    Concatenates P text n (n + k) := Relation.ReflTransGen.single ⟨k, h, rfl⟩

theorem Concatenates.trans {P : List Char → ℕ → Prop} {i : ℕ} (h₁ : Concatenates P text n m)
    (h₂ : Concatenates P text m i) : Concatenates P text n i := Relation.ReflTransGen.trans h₁ h₂

theorem CutsLine.endMark_mem (h : CutsLine lexis rest k) : endMark ∈ rest := by
  obtain ⟨o, body, r, -, rfl, -⟩ := h
  simp

/-! ## A piece has one length -/

theorem within_cons {a b : Char} {l : List Char} (h : [a, b] <:+: l) : [a, b] <:+: c :: l :=
  h.trans (List.suffix_cons c l).isInfix

theorem closing_within {body r : List Char} (h : '/' :: r = body ++ '*' :: '/' :: rest) :
    ['*', '/'] <:+: '*' :: (body ++ ['*']) := by
  cases body with
  | nil => simp at h
  | cons y body =>
    have hy : '/' = y := (List.cons.inj h).1
    subst hy
    exact ⟨[], body ++ ['*'], rfl⟩

theorem closing_unique {body body' r r' : List Char}
    (h : body ++ '*' :: '/' :: r = body' ++ '*' :: '/' :: r')
    (hb : ¬['*', '/'] <:+: body ++ ['*']) (hb' : ¬['*', '/'] <:+: body' ++ ['*']) :
    body = body' := by
  induction body generalizing body' with
  | nil =>
    cases body' with
    | nil => rfl
    | cons x body' =>
      obtain ⟨hx, htail⟩ := List.cons.inj h
      subst hx
      exact (hb' (closing_within htail)).elim
  | cons x body ih =>
    cases body' with
    | nil =>
      obtain ⟨hx, htail⟩ := List.cons.inj h
      subst hx
      exact (hb (closing_within htail.symm)).elim
    | cons y body' =>
      obtain ⟨hx, htail⟩ := List.cons.inj h
      have heq := ih htail (fun hin => hb (within_cons hin)) fun hin => hb' (within_cons hin)
      rw [hx, heq]

theorem OpensLine.unique {o o' r r' : List Char} (ho : OpensLine lexis o)
    (ho' : OpensLine lexis o') (h : o ++ r = o' ++ r') : o = o' ∧ r = r' := by
  rcases ho with rfl | rfl | ⟨-, rfl⟩ <;> rcases ho' with rfl | rfl | ⟨-, rfl⟩ <;> simp_all

/-- A piece has one length. -/
theorem IsIgnored.unique {k' : ℕ} (h : IsIgnored lexis rest k) (h' : IsIgnored lexis rest k') :
    k = k' := by
  have notBlank : ∀ {k}, IsLineComment lexis rest k ∨ IsBlockComment rest k →
      Character.isBlank (charAt rest 0) = false := by
    rintro k (⟨o, r, ho, rfl, -⟩ | ⟨body, r, rfl, -, -⟩)
    · rcases ho with rfl | rfl | ⟨-, rfl⟩ <;> rfl
    · rfl
  have apart : ∀ {k k'}, IsLineComment lexis rest k → ¬IsBlockComment rest k' := by
    rintro k k' ⟨o, r, ho, rfl, -⟩ ⟨body, r', h, -, -⟩
    rcases ho with rfl | rfl | ⟨-, rfl⟩ <;> simp at h
  rcases h with ⟨hb, rfl⟩ | h
  · rcases h' with ⟨-, rfl⟩ | h'
    · rfl
    · rw [notBlank h'] at hb
      cases hb
  · rcases h' with ⟨hb, rfl⟩ | h'
    · rw [notBlank h] at hb
      cases hb
    · rcases h with hl | hl <;> rcases h' with hl' | hl'
      · obtain ⟨o, r, ho, rfl, rfl⟩ := hl
        obtain ⟨o', r', ho', h, rfl⟩ := hl'
        obtain ⟨rfl, rfl⟩ := ho.unique ho' h
        rfl
      · exact (apart hl hl').elim
      · exact (apart hl' hl).elim
      · obtain ⟨body, r, rfl, hin, rfl⟩ := hl
        obtain ⟨body', r', h, hin', rfl⟩ := hl'
        rw [closing_unique (by simpa using h) hin hin']

/-- Of two places that ignored text leads to, it leads from the first to the second. -/
theorem IgnoredBetween.between {i : ℕ} (h : IgnoredBetween lexis text n i)
    (hm : IgnoredBetween lexis text n m) (hle : m ≤ i) : IgnoredBetween lexis text m i := by
  have hunique : Relator.RightUnique fun a b => ∃ k, IsIgnored lexis (text.drop a) k ∧ b = a + k := by
    rintro a b b' ⟨k, hk, rfl⟩ ⟨k', hk', rfl⟩
    rw [hk.unique hk']
  rcases Relation.ReflTransGen.total_of_right_unique hunique hm h with h | h
  · exact h
  · have hge := Concatenates.le h
    obtain rfl : m = i := by omega
    exact Relation.ReflTransGen.refl

/-- What the lexer ignores is ignored text as long as every comment that an end mark cuts goes on
as such. -/
theorem SkippedBetween.ignored_iff {i : ℕ} (h : SkippedBetween lexis text n i) :
    IgnoredBetween lexis text n i ↔ ∀ m k, IgnoredBetween lexis text n m →
      CutsLine lexis (text.drop m) k → m + k ≤ i → IgnoredBetween lexis text m i := by
  constructor
  · intro hall m k hm _ hle
    exact hall.between hm (by omega)
  · intro hcut
    have hreach : ∀ j, SkippedBetween lexis text n j → j ≤ i →
        IgnoredBetween lexis text n j ∨ IgnoredBetween lexis text n i := by
      intro j hj
      induction hj with
      | refl => exact fun _ => Or.inl Relation.ReflTransGen.refl
      | tail _ hstep ih =>
        obtain ⟨k, hk, rfl⟩ := hstep
        intro hle
        rcases ih (by omega) with hm | hi
        · rcases hk with hk | hk
          · exact Or.inl (Concatenates.trans hm (Concatenates.single hk))
          · exact Or.inr (Concatenates.trans hm (hcut _ k hm hk hle))
        · exact Or.inr hi
    rcases hreach i h (Nat.le_refl i) with h | h <;> exact h

/-! ## What the lexer ignores -/

theorem eq_cons_of_charAt (h : charAt rest 0 = c) (hc : c ≠ endMark) : ∃ r, rest = c :: r := by
  cases rest with
  | nil => exact (hc h.symm).elim
  | cons x r => exact ⟨r, by rw [← h]; rfl⟩

theorem eq_cons_cons_of_charAt {c' : Char} (h : charAt rest 0 = c) (h' : charAt rest 1 = c')
    (hc : c ≠ endMark) (hc' : c' ≠ endMark) : ∃ r, rest = c :: c' :: r := by
  obtain ⟨r, rfl⟩ := eq_cons_of_charAt h hc
  have hnext : charAt r 0 = c' := h'
  obtain ⟨r, rfl⟩ := eq_cons_of_charAt hnext hc'
  exact ⟨r, rfl⟩

namespace Ignored

theorem line_skipped {o r : List Char} (ho : OpensLine lexis o) :
    IsLineComment lexis (o ++ r) (line o.length (o ++ r)) ∨
      CutsLine lexis (o ++ r) (line o.length (o ++ r)) := by
  unfold line
  rw [List.drop_left]
  obtain ⟨body, hbody⟩ : ∃ body, body = r.takeWhile fun c => c != '\n' && c != endMark := ⟨_, rfl⟩
  have hplain : ∀ c ∈ body, c ≠ '\n' ∧ c ≠ endMark := by
    intro c hc
    rw [hbody] at hc
    simpa using List.mem_takeWhile_imp hc
  have hsplit : body ++ r.dropWhile (fun c => c != '\n' && c != endMark) = r := by
    rw [hbody]
    exact List.takeWhile_append_dropWhile
  have hhead := List.head?_dropWhile_not (fun c => c != '\n' && c != endMark) r
  rw [← hbody]
  generalize r.dropWhile (fun c => c != '\n' && c != endMark) = tail at hsplit hhead
  have hall : body.takeWhile (fun c => c != '\n') = body :=
    List.takeWhile_eq_self_iff.2 fun c hc => by simpa using (hplain c hc).1
  cases tail with
  | nil =>
    left
    rw [List.append_nil] at hsplit
    subst hsplit
    refine ⟨o, body, ho, rfl, ?_⟩
    rw [lineLength, hall, List.length_append]
    dsimp only
    omega
  | cons x tail =>
    have hx : x = '\n' ∨ x = endMark := by
      by_contra hne
      simp_all
    have hlength : (o ++ r).length = o.length + body.length + 1 + tail.length := by
      rw [← hsplit]
      simp only [List.length_append, List.length_cons]
      omega
    rw [Nat.min_eq_left (by omega)]
    rcases hx with rfl | rfl
    · left
      refine ⟨o, r, ho, rfl, ?_⟩
      have hline : r.takeWhile (fun c => c != '\n') = body := by
        rw [← hsplit, List.takeWhile_append_of_pos fun c hc => by simpa using (hplain c hc).1]
        simp
      rw [lineLength, hline]
      rw [List.length_append] at hlength
      omega
    · right
      refine ⟨o, body, tail, ho, by rw [hsplit], fun h => (hplain _ h).1 rfl,
        fun h => (hplain _ h).2 rfl, rfl⟩

theorem closing?_body (h : closing? rest = some n) : ∃ body r, rest = body ++ '*' :: '/' :: r ∧
    ¬['*', '/'] <:+: body ++ ['*'] ∧ n = body.length + 2 := by
  induction rest using closing?.induct generalizing n with
  | case1 => cases h
  | case2 => cases h
  | case3 c c' rest hc =>
    obtain ⟨rfl, rfl⟩ := hc
    simp only [closing?, and_self, if_true, Option.some.injEq] at h
    refine ⟨[], rest, rfl, fun hin => ?_, h.symm⟩
    have hlen := hin.length_le
    simp at hlen
  | case4 c c' rest hc ih =>
    simp only [closing?, if_neg hc] at h
    obtain ⟨m, hm, rfl⟩ := Option.map_eq_some_iff.1 h
    obtain ⟨body, r, hrest, hin, rfl⟩ := ih hm
    refine ⟨c :: body, r, by rw [hrest]; rfl, fun hin' => ?_, rfl⟩
    rw [List.cons_append, List.infix_cons_iff] at hin'
    rcases hin' with hp | hin'
    · obtain ⟨hstar, hp⟩ := List.cons_prefix_cons.1 hp
      cases body with
      | nil =>
        have hslash : '/' = '*' := (List.cons_prefix_cons.1 hp).1
        exact absurd hslash (by decide)
      | cons x body =>
        have hslash : '/' = x := (List.cons_prefix_cons.1 hp).1
        have hfirst : c' = x := (List.cons.inj hrest).1
        exact hc ⟨hstar.symm, hfirst.trans hslash.symm⟩
    · exact hin hin'

theorem block_isBlockComment {cause : LexicalCause} {o r : List Char} (ho : '*' ∉ o)
    (h : block (o.length + 2) cause ('/' :: '*' :: (o ++ r)) = .ok k) :
    IsBlockComment ('/' :: '*' :: (o ++ r)) k := by
  have hdrop : ('/' :: '*' :: (o ++ r)).drop (o.length + 2) = r := by simp
  unfold block at h
  rw [hdrop] at h
  cases hc : closing? r with
  | none => simp [hc] at h
  | some n =>
    simp only [hc, Except.ok.injEq] at h
    obtain ⟨body, r', rfl, hin, rfl⟩ := closing?_body hc
    refine ⟨o ++ body, r', by simp, fun hin' => ?_, by rw [← h, List.length_append]; omega⟩
    clear hdrop hc h
    apply hin
    induction o with
    | nil => exact hin'
    | cons x o ih =>
      simp only [List.mem_cons, not_or] at ho
      rw [List.cons_append, List.cons_append, List.infix_cons_iff] at hin'
      rcases hin' with hp | hin'
      · exact (ho.1 (List.cons_prefix_cons.1 hp).1).elim
      · exact ih ho.2 hin'

theorem comment_skipped (hat : isComment lexis rest = true) (h : comment rest = .ok k) :
    IsIgnored lexis rest k ∨ CutsLine lexis rest k := by
  have hlines : ∀ o r : List Char, OpensLine lexis o → rest = o ++ r →
      IsIgnored lexis rest (line o.length rest) ∨ CutsLine lexis rest (line o.length rest) := by
    rintro o r ho rfl
    exact (line_skipped ho).imp_left fun h => Or.inr (Or.inl h)
  simp only [isComment, Bool.or_eq_true, Bool.and_eq_true, beq_iff_eq] at hat
  simp only [comment] at h
  split at h
  · next hline =>
    obtain rfl := Except.ok.inj h
    rcases hline with ⟨h₀, h₁⟩ | ⟨h₀, h₁⟩
    · obtain ⟨r, hr⟩ := eq_cons_cons_of_charAt h₀ h₁ (by decide) (by decide)
      exact hlines ['/', '/'] r (Or.inr (Or.inl rfl)) hr
    · obtain ⟨r, hr⟩ := eq_cons_cons_of_charAt h₀ h₁ (by decide) (by decide)
      exact hlines ['-', '-'] r (Or.inl rfl) hr
  · next hline =>
    split at h
    · next hpound =>
      obtain rfl := Except.ok.inj h
      obtain ⟨r, hr⟩ := eq_cons_of_charAt hpound (by decide)
      have hlexis : lexis.poundComment = true := by
        simp only [hpound] at hat
        simpa using hat
      exact hlines ['#'] r (Or.inr (Or.inr ⟨hlexis, rfl⟩)) hr
    · next hpound =>
      split at h
      · next hblock =>
        obtain ⟨r, rfl⟩ := eq_cons_cons_of_charAt hblock.1 hblock.2 (by decide) (by decide)
        have hclose := block_isBlockComment (o := []) (by simp) h
        exact Or.inl (Or.inr (Or.inr hclose))
      · next hblock =>
        tauto

theorem hint_isBlockComment {o : String} (ho : d.lexis.hintOpening = some o)
    (hp : o.toList <+: rest) (h : hint o.length rest = .ok k) : IsBlockComment rest k := by
  obtain ⟨r, rfl⟩ := hp
  cases d with
  | mysql =>
    obtain rfl := Option.some.inj ho
    exact block_isBlockComment (o := ['!']) (by decide) h
  | oracle =>
    obtain rfl := Option.some.inj ho
    exact block_isBlockComment (o := ['+']) (by decide) h
  | postgresql | sqlserver | h2 => cases ho

theorem blanks_ignored (P : List Char → ℕ → Prop) (hP : ∀ c r, Character.isBlank c = true →
    P (c :: r) 1) : Concatenates P text n (n + blanks (text.drop n)) := by
  induction hrest : text.drop n generalizing n with
  | nil => exact Relation.ReflTransGen.refl
  | cons c rest ih =>
    have hnext : text.drop (n + 1) = rest := by
      rw [← List.drop_drop, hrest]
      rfl
    unfold blanks
    by_cases hc : Character.isBlank c = true
    · have hstep : Concatenates P text n (n + 1) := .single (hrest ▸ hP c rest hc)
      rw [List.takeWhile_cons, if_pos hc, List.length_cons]
      have hrun := hstep.trans (ih hnext)
      unfold blanks at hrun
      rwa [Nat.add_assoc, Nat.add_comm 1] at hrun
    · rw [List.takeWhile_cons, if_neg hc]
      exact Relation.ReflTransGen.refl

/-- One stretch of ignored text is a concatenation of blanks and comments. -/
theorem stretch_skipped (h : stretch d.lexis (text.drop n) = .ok k) :
    SkippedBetween d.lexis text n (n + k) := by
  unfold stretch hintOpening? at h
  cases ho : d.lexis.hintOpening.filter fun o => o.toList.isPrefixOf (text.drop n) with
  | some o =>
    rw [ho] at h
    obtain ⟨hopening, hp⟩ := Option.filter_eq_some_iff.1 ho
    have hclosed := hint_isBlockComment hopening (List.isPrefixOf_iff_prefix.1 hp) h
    exact .single (Or.inl (Or.inr (Or.inr hclosed)))
  | none =>
    rw [ho] at h
    by_cases hc : isComment d.lexis (text.drop n) = true
    · simp only [hc, if_true] at h
      exact .single (comment_skipped hc h)
    · simp only [hc] at h
      obtain rfl := Except.ok.inj h
      exact blanks_ignored _ fun c r hblank => Or.inl (Or.inl ⟨hblank, rfl⟩)

end Ignored

end SqlFront

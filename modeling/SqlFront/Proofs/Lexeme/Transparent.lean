import SqlFront.Proofs.Lexeme.Lookahead

/-!
# Ignored text between two tokens

What separates two tokens means nothing: a space in its place leaves the words of the text as they
are. There is one exception, since a word can be a keyword by what follows it: `ORDER` and `GROUP`
look for `BY` over blanks, but not over comments.
-/

set_option autoImplicit false

namespace SqlFront

variable {d : Dialect} {before last : Option Char} {text u a v : List Char} {n m k : ℕ}
  {t t' e : Token} {ts xs ys zs : List Token} {ws : List (TokenType × String)}

/-! ## Up to a token -/

inductive Leads (d : Dialect) (a : List Char) :
    Option Char → ℕ → List Char → List Token → Option Char → Prop
  | nil {before : Option Char} {n : ℕ} : Leads d a before n [] [] before
  | ignored {before last : Option Char} {n k : ℕ} {u : List Char} {ts : List Token} :
      Piece.next d before (u ++ a) = .ok (.ignored k) → k < u.length →
      Leads d a (u.take k).getLast? (n + k) (u.drop k) ts last → Leads d a before n u ts last
  | lexeme {before last : Option Char} {n : ℕ} {u : List Char} {x : Lexeme} {ts : List Token} :
      Piece.next d before (u ++ a) = .ok (.lexeme x) → x.length ≤ u.length →
      Leads d a (u.take x.length).getLast? (n + x.length) (u.drop x.length) ts last →
      Leads d a before n u (x.place n :: ts) last

/-- The words of a text are those up to a token and those behind it. -/
theorem Leads.spells (h : Leads d a before n u ts last) (hs : Spells d last a ws) :
    Spells d before (u ++ a) (ts.map Token.word ++ ws) := by
  induction h with
  | nil => exact hs
  | @ignored before last n k u ts hnext hk _ ih =>
    apply Spells.ignored hnext
    rw [List.take_append_of_le_length hk.le, List.drop_append_of_le_length hk.le]
    exact ih hs
  | @lexeme before last n u x ts hnext hx _ ih =>
    apply Spells.lexeme hnext
    rw [List.take_append_of_le_length hx, List.drop_append_of_le_length hx]
    exact ih hs

theorem take_behind {rest : List Char} {i : ℕ} : (rest.take (i + m)).take i = rest.take i ∧
    (rest.take (i + m)).drop i = (rest.drop i).take m := by
  constructor
  · rw [List.take_take, Nat.min_eq_left (Nat.le_add_right i m)]
  · rw [List.drop_take, Nat.add_sub_cancel_left]

/-- A text is cut behind one of its tokens. -/
theorem TokenStream.scan_leads {rest : List Char}
    (h : (scan d k before n rest).tokens = xs ++ t :: zs) (hk : rest.length ≤ k) : ∃ m last j,
    0 < m ∧ m ≤ rest.length ∧ t.stop = n + m ∧
      Leads d (rest.drop m) before n (rest.take m) (xs ++ [t]) last ∧ (rest.drop m).length ≤ j ∧
      scan d j last t.stop (rest.drop m) = ⟨zs, (scan d k before n rest).ending⟩ := by
  induction k generalizing before n rest xs with
  | zero => simp [scan] at h
  | succ k ih =>
    cases hp : Piece.next d before rest with
    | error fault => simp [scan, hp] at h
    | ok p =>
      cases p with
      | atEnd => simp [scan, hp] at h
      | ignored i =>
        simp only [scan, hp] at h ⊢
        have hi := (Piece.next_ignored hp).1
        have hlen : (rest.drop i).length ≤ k := by
          rw [List.length_drop]
          omega
        obtain ⟨m, last, j, hpos, hm, hstop, hleads, hj, hscan⟩ := ih h hlen
        rw [List.length_drop] at hm
        rw [List.drop_drop] at hleads hj hscan
        refine ⟨i + m, last, j, by omega, by omega, by omega, ?_, hj, hscan⟩
        obtain ⟨htake, hdrop⟩ := @take_behind m rest i
        refine .ignored (by rwa [List.take_append_drop]) ?_ (htake ▸ hdrop ▸ hleads)
        rw [List.length_take]
        omega
      | lexeme x =>
        simp only [scan, hp, push] at h ⊢
        have hx := Piece.next_covers hp
        have hle := hx.le
        have hpos := hx.pos
        have hlen : (rest.drop x.length).length ≤ k := by
          rw [List.length_drop]
          omega
        -- The lexeme is the token itself, or one of those in front of it.
        cases xs with
        | nil =>
          obtain ⟨rfl, hzs⟩ := List.cons.inj h
          refine ⟨x.length, (rest.take x.length).getLast?, k, hpos, hle, rfl, ?_, hlen, ?_⟩
          · refine .lexeme (by rwa [List.take_append_drop]) (by rw [List.length_take]; omega) ?_
            rw [List.take_take, Nat.min_self, List.drop_take, Nat.sub_self]
            exact .nil
          · rw [← hzs]
            rfl
        | cons y xs =>
          obtain ⟨rfl, hrest⟩ := List.cons.inj h
          obtain ⟨m, last, j, -, hm, hstop, hleads, hj, hscan⟩ := ih hrest hlen
          rw [List.length_drop] at hm
          rw [List.drop_drop] at hleads hj hscan
          refine ⟨x.length + m, last, j, by omega, by omega, by omega, ?_, hj, hscan⟩
          obtain ⟨htake, hdrop⟩ := @take_behind m rest x.length
          refine .lexeme (by rwa [List.take_append_drop]) ?_ (htake ▸ hdrop ▸ hleads)
          rw [List.length_take]
          omega

/-! ## With a space behind the token -/

def Token.SeeksBy (t : Token) : Prop :=
  t.type ≠ .literal .chars ∧ Lexeme.needsBy t.literals = true

structure Respelled (text text' : List Char) (t u : Token) : Prop where
  start : u.start = t.start
  literals : u.literals = t.literals
  stop : u.stop = t.stop
  type : u.type = t.type ↔ (t.SeeksBy →
    Lexeme.startsWithBy (text.drop t.stop) = Lexeme.startsWithBy (text'.drop t.stop))

theorem Lexeme.Retyped.respelled {text' r s : List Char} {x y : Lexeme}
    (hr : text.drop n = r) (hs : text'.drop n = s)
    (hx : Piece.next d before r = .ok (.lexeme x)) (hy : Piece.next d before s = .ok (.lexeme y))
    (h : Retyped d x y r s) : Respelled text text' (x.place n) (y.place n) where
  start := rfl
  literals := h.literals
  stop := congrArg (n + ·) h.length
  type := by
    have hdrop : text.drop (n + x.length) = r.drop x.length := by rw [← hr, List.drop_drop]
    have hdrop' : text'.drop (n + x.length) = s.drop x.length := by rw [← hs, List.drop_drop]
    change y.type = x.type ↔ (x.type ≠ .literal .chars ∧ needsBy x.literals = true →
      startsWithBy (text.drop (n + x.length)) = startsWithBy (text'.drop (n + x.length)))
    rw [hdrop, hdrop']
    constructor
    · rintro htype ⟨hchars, hby⟩
      have hx := Piece.next_lookahead hx hchars hby
      have hy := Piece.next_lookahead hy (by rwa [htype]) (by rwa [h.literals])
      rw [h.literals, h.length] at hy
      exact (wordType_eq_iff hby).1 (hx.symm.trans (htype.symm.trans hy))
    · intro hfound
      rcases h.type with htype | ⟨hxtype, hytype⟩
      · exact htype
      · rw [hxtype, hytype]
        cases hby : needsBy x.literals with
        | true =>
          refine ((wordType_eq_iff hby).2 (hfound ⟨?_, hby⟩)).symm
          rw [hxtype]
          exact wordType_ne (by simp) (by simp)
        | false => exact wordType_eq_of_not_needsBy hby

/-- The tokens up to a token end with it in another text as well, if a space follows it there. -/
theorem Leads.spaced {text' : List Char} (h : Leads d a before n u ts last)
    (htext : text.drop n = u ++ a) (htext' : text'.drop n = u ++ ' ' :: v) :
    ∃ us, Leads d (' ' :: v) before n u us last ∧ List.Forall₂ (Respelled text text') ts us := by
  induction h with
  | nil => exact ⟨[], .nil, .nil⟩
  | @ignored before last n k u ts hnext hk _ ih =>
    obtain ⟨us, hleads, hus⟩ := ih
      (by rw [← List.drop_drop, htext, List.drop_append_of_le_length hk.le])
      (by rw [← List.drop_drop, htext', List.drop_append_of_le_length hk.le])
    exact ⟨us, .ignored (Piece.next_ignored_spaced hnext hk) hk hleads, hus⟩
  | @lexeme before last n u x ts hnext hx _ ih =>
    have hu : u ≠ [] := by
      rintro rfl
      exact absurd hx (Nat.not_le.2 (Piece.next_covers hnext).pos)
    obtain ⟨y, hy, hretyped⟩ := Piece.next_lexeme_spaced (v := v) hu hnext hx
    obtain ⟨us, hleads, hus⟩ := ih
      (by rw [← List.drop_drop, htext, List.drop_append_of_le_length hx])
      (by rw [← List.drop_drop, htext', List.drop_append_of_le_length hx])
    rw [← hretyped.length] at hx hleads
    exact ⟨y.place n :: us, .lexeme hy hx hleads,
      .cons (hretyped.respelled htext htext' hnext hy) hus⟩

theorem Respelled.eq {text' : List Char} {t u : Token} (h : Respelled text text' t u)
    (hby : t.SeeksBy →
      Lexeme.startsWithBy (text.drop t.stop) = Lexeme.startsWithBy (text'.drop t.stop)) : u = t := by
  obtain ⟨type, literals, start, stop⟩ := t
  obtain ⟨type', literals', start', stop'⟩ := u
  obtain rfl : start' = start := h.start
  obtain rfl : literals' = literals := h.literals
  obtain rfl : stop' = stop := h.stop
  obtain rfl : type' = type := h.type.2 hby
  rfl

theorem Leads.stop_le (h : Leads d a before n u ts last) : ∀ t ∈ ts, t.stop ≤ n + u.length := by
  induction h with
  | nil => simp
  | @ignored before last n k u ts _ hk _ ih =>
    intro t ht
    have hle := ih t ht
    rw [List.length_drop] at hle
    omega
  | @lexeme before last n u x ts _ hx _ ih =>
    rw [List.forall_mem_cons]
    refine ⟨Nat.add_le_add_left hx n, fun t ht => ?_⟩
    have hle := ih t ht
    rw [List.length_drop] at hle
    omega

theorem respelled_words {text' : List Char} {us : List Token}
    (h : List.Forall₂ (Respelled text text') ts us) :
    us.map Token.literals = ts.map Token.literals ∧
      (us.map Token.word = ts.map Token.word ↔ ∀ t ∈ ts, t.SeeksBy →
        Lexeme.startsWithBy (text.drop t.stop) = Lexeme.startsWithBy (text'.drop t.stop)) := by
  induction h with
  | nil => simp
  | @cons t u ts us htu _ ih =>
    obtain ⟨hliterals, hwords⟩ := ih
    refine ⟨by simp [htu.literals, hliterals], ?_⟩
    rw [List.forall_mem_cons, ← hwords, ← htu.type]
    simp [Token.word, htu.literals]

/-! ## Between two tokens -/

theorem not_beginsWord_of_isBlank {c : Char} (h : Character.isBlank c = true) :
    Piece.beginsWord d.lexis c = false := by
  have hne : ∀ x, Character.isBlank x = false → c ≠ x := fun _ => Character.ne_of_isBlank h
  cases d <;> simp [Piece.beginsWord, Dialect.lexis, Character.not_isLetter_of_isBlank h,
    hne '\x60' (by decide), hne '_' (by decide), hne '$' (by decide), hne '"' (by decide),
    hne '[' (by decide)]

theorem getLast?_take {p r : List Char} {c : Char} (hk : k = p.length + 1) :
    ((p ++ c :: r).take k).getLast? = some c := by
  rw [hk, List.take_length_add_append]
  simp

theorem skipped_last {rest : List Char}
    (h : IsIgnored d.lexis rest k ∨ CutsLine d.lexis rest k) :
    rest.drop k = [] ∨
      ∃ c, (rest.take k).getLast? = some c ∧ Piece.beginsWord d.lexis c = false := by
  have hplain : ∀ c ∈ ['\n', '/', endMark], Piece.beginsWord d.lexis c = false := by
    simp only [List.forall_mem_cons, List.not_mem_nil, false_imp_iff, implies_true, and_true]
    refine ⟨?_, ?_, ?_⟩ <;> cases d <;> rfl
  rcases h with (⟨hblank, rfl⟩ | ⟨o, r, -, rfl, rfl⟩ | ⟨body, r, rfl, -, rfl⟩) |
    ⟨o, body, r, -, rfl, -, -, rfl⟩
  · right
    cases rest with
    | nil => exact absurd hblank (by decide)
    | cons c rest => exact ⟨c, rfl, not_beginsWord_of_isBlank hblank⟩
  · -- The line is the last one, or a line break ends it.
    have hsplit := List.takeWhile_append_dropWhile (p := fun c => c != '\n') (l := r)
    cases htail : r.dropWhile fun c => c != '\n' with
    | nil =>
      left
      have hall : (r.takeWhile fun c => c != '\n') = r := by
        rwa [htail, List.append_nil] at hsplit
      rw [lineLength, hall, Nat.min_eq_right (Nat.le_succ _), ← List.length_append,
        List.drop_length]
    | cons c tail =>
      right
      have hc : c = '\n' := by
        have hstop := List.head?_dropWhile_not (fun c => c != '\n') r
        simpa [htail] using hstop
      subst hc
      refine ⟨'\n', ?_, hplain _ (by simp)⟩
      rw [htail] at hsplit
      generalize hline : (r.takeWhile fun c => c != '\n') = line at hsplit
      have hlength : lineLength r = line.length + 1 := by
        rw [lineLength, hline, ← hsplit]
        simp
      rw [hlength, ← hsplit, ← List.append_assoc, getLast?_take]
      rw [List.length_append, Nat.add_assoc]
  · right
    refine ⟨'/', ?_, hplain _ (by simp)⟩
    have hassoc : '/' :: '*' :: (body ++ '*' :: '/' :: r) =
        ('/' :: '*' :: (body ++ ['*'])) ++ '/' :: r := by simp
    rw [hassoc, getLast?_take]
    simp
  · right
    refine ⟨endMark, ?_, hplain _ (by simp)⟩
    rw [← List.append_assoc, getLast?_take]
    simp

theorem Piece.next_ignored_last {rest : List Char}
    (h : Piece.next d before rest = .ok (.ignored k)) :
    rest.drop k = [] ∨ (rest.take k).getLast?.any (beginsWord d.lexis) = false := by
  obtain ⟨hpos, hstretch⟩ := Piece.next_ignored h
  have hskipped : SkippedBetween d.lexis rest 0 (0 + k) := Ignored.stretch_skipped hstretch
  rw [Nat.zero_add] at hskipped
  rcases Relation.ReflTransGen.cases_tail hskipped with rfl | ⟨p, -, i, hi, rfl⟩
  · exact absurd hpos (Nat.lt_irrefl 0)
  · rcases skipped_last hi with hnil | ⟨c, hc, hfront⟩
    · left
      rwa [List.drop_drop] at hnil
    · right
      rw [List.take_add, List.getLast?_append, hc]
      exact hfront

theorem Piece.next_lexeme_front {rest : List Char} {x : Lexeme}
    (h : Piece.next d before rest = .ok (.lexeme x)) :
    Character.isBlank (charAt rest 0) = false := by
  cases rest with
  | nil => rfl
  | cons c rest =>
    rw [Bool.eq_false_iff]
    intro hblank
    have hfront : Character.isBlank c = true := hblank
    have hc : c ∉ ['/', '-', '#'] := by
      intro hmem
      simp only [List.mem_cons, List.not_mem_nil, or_false] at hmem
      rcases hmem with rfl | rfl | rfl <;> exact absurd hfront (by decide)
    have hpos : Ignored.blanks (c :: rest) ≠ 0 := by
      simp [Ignored.blanks, hfront]
    rw [Piece.next, Ignored.stretch_eq_blanks hc] at h
    split at h
    · cases h
    · next hzero => exact hpos (Except.ok.inj hzero)
    · cases h

theorem TokenStream.scan_gap {rest : List Char} (hk : rest.length ≤ k)
    (hend : (scan d k before n rest).ending = .ok e)
    (htokens : (scan d k before n rest).tokens ++ [e] = t :: ys) : ∃ j,
    t.start = n + j ∧ Character.isBlank (charAt (rest.drop j) 0) = false ∧
      (0 < j → Spells d (some ' ') (rest.drop j)
        ((scan d k before n rest).tokens.map Token.word)) := by
  induction k generalizing before n rest with
  | zero =>
    obtain rfl := List.eq_nil_of_length_eq_zero (Nat.le_zero.1 hk)
    simp only [scan, Except.ok.injEq, List.nil_append, List.cons.injEq] at hend htokens
    obtain ⟨rfl, -⟩ := htokens
    exact ⟨0, by rw [← hend]; rfl, rfl, fun h => absurd h (Nat.lt_irrefl 0)⟩
  | succ k ih =>
    cases hp : Piece.next d before rest with
    | error fault => simp [scan, hp] at hend
    | ok p =>
      cases p with
      | atEnd =>
        obtain rfl := Piece.next_atEnd hp
        simp only [scan, hp, Except.ok.injEq, List.nil_append, List.cons.injEq] at hend htokens
        obtain ⟨rfl, -⟩ := htokens
        exact ⟨0, by rw [← hend]; rfl, rfl, fun h => absurd h (Nat.lt_irrefl 0)⟩
      | lexeme x =>
        simp only [scan, hp, push, List.cons_append, List.cons.injEq] at htokens
        obtain ⟨rfl, -⟩ := htokens
        refine ⟨0, rfl, Piece.next_lexeme_front hp, fun h => absurd h (Nat.lt_irrefl 0)⟩
      | ignored i =>
        simp only [scan, hp] at hend htokens ⊢
        have hi := (Piece.next_ignored hp).1
        have hlen : (rest.drop i).length ≤ k := by
          rw [List.length_drop]
          omega
        obtain ⟨j, hstart, hblank, hspells⟩ := ih hlen hend htokens
        rw [List.drop_drop] at hblank hspells
        refine ⟨i + j, by omega, hblank, fun _ => ?_⟩
        rcases Nat.eq_zero_or_pos j with rfl | hj
        · have hs := (TokenStream.scan_spells hlen).2 ⟨rfl, e, hend⟩
          rcases Piece.next_ignored_last hp with hnil | hlast
          · rw [Nat.add_zero, hnil]
            rw [hnil] at hs
            exact Spells.nil_iff.2 (Spells.nil_iff.1 hs)
          · rw [Nat.add_zero]
            refine (Spells.before_iff ?_).1 hs
            rw [hlast]
            cases d <;> decide
        · exact hspells hj

/-! ## A space between two tokens -/

/-- The tokens of a whole text have a last one, which is no more than its end. -/
theorem TokenStream.all_eq (h : (ofText d text).all = .ok ts) :
    (ofText d text).ending = .ok (Token.atEnd text.length) ∧
      ts = (ofText d text).tokens ++ [Token.atEnd text.length] := by
  obtain ⟨us, hus, -⟩ := (all_tiling h).ended
  unfold all at h
  split at h
  · next e he =>
    obtain rfl := Except.ok.inj h
    obtain ⟨-, hlast⟩ := List.append_inj' hus rfl
    obtain rfl := List.singleton_inj.1 hlast
    exact ⟨he, rfl⟩
  · cases h

/-- A text with ignored text behind one of its tokens is the text up to there, the ignored text and
the text from the next token on. Read behind a space, that has the words it has. -/
theorem TokenStream.all_gap (h : (ofText d text).all = .ok (xs ++ t :: t' :: ys))
    (hgap : t.stop < t'.start) : ∃ zs last,
      t' :: ys = zs ++ [Token.atEnd text.length] ∧ t.stop ≤ text.length ∧
      Leads d (text.drop t.stop) none 0 (text.take t.stop) (xs ++ [t]) last ∧
      Spells d last (' ' :: text.drop t'.start) (zs.map Token.word) := by
  obtain ⟨hending, htokens⟩ := all_eq h
  obtain ⟨zs, e, hzs⟩ : ∃ zs e, t' :: ys = zs ++ [e] :=
    ⟨_, _, (List.dropLast_append_getLast (List.cons_ne_nil t' ys)).symm⟩
  rw [hzs, ← List.cons_append, ← List.append_assoc] at htokens
  obtain ⟨hfront, he⟩ := List.append_inj' htokens rfl
  obtain rfl := List.singleton_inj.1 he
  obtain ⟨m, last, j, -, hm, hstop, hleads, hj, hscan⟩ :=
    scan_leads (n := 0) hfront.symm (Nat.le_refl _)
  rw [Nat.zero_add] at hstop
  subst hstop
  have hrest : scan d j last t.stop (text.drop t.stop) =
      ⟨zs, .ok (Token.atEnd text.length)⟩ := hscan.trans (by rw [← hending]; rfl)
  obtain ⟨i, hstart, hblank, hspells⟩ :=
    scan_gap hj (congrArg TokenStream.ending hrest) (by rw [hrest]; exact hzs.symm)
  rw [List.drop_drop, ← hstart] at hblank hspells
  rw [hrest] at hspells
  exact ⟨zs, last, hzs, hm, hleads, (Spells.space_iff hblank).2 (hspells (by omega))⟩

theorem between_split (h : n ≤ m) :
    text = text.take n ++ (between text n m ++ text.drop m) := by
  have hbehind : between text n m ++ text.drop m = text.drop n := by
    obtain ⟨i, rfl⟩ := Nat.exists_eq_add_of_le h
    rw [between, List.drop_take, Nat.add_sub_cancel_left, ← List.drop_drop,
      List.take_append_drop]
  rw [hbehind, List.take_append_drop]

theorem blanked_between (hk : k ≤ n) (hn : n < m) (hm : m ≤ text.length)
    (hblanks : ∀ c ∈ between text n m, Character.isBlank c = true) :
    Blanked (text.drop k) ((text.take n ++ ' ' :: text.drop m).drop k) := by
  have hleft : ∀ b, (text.take n ++ b).drop k = (text.take n).drop k ++ b :=
    fun b => List.drop_append_of_le_length (by rw [List.length_take]; omega)
  have hsplit := congrArg (List.drop k) (@between_split text n m hn.le)
  rw [hleft] at hsplit
  rw [hleft, hsplit]
  refine .behind _ _ _ (fun hnil => ?_) hblanks
  have hzero := congrArg List.length hnil
  rw [between, List.length_drop, List.length_take, List.length_nil] at hzero
  omega

/-- Ignored text between two tokens means no more than a space. The tokens have the same literals,
and they have the same types exactly if each bare `ORDER` and `GROUP` in front finds `BY` over the
blanks behind it in both texts or in none. If only blanks are replaced, it does. -/
theorem space_for_ignored_iff (h : (TokenStream.ofText d text).all = .ok (xs ++ t :: t' :: ys))
    (hgap : t.stop < t'.start) :
    ∃ us, (TokenStream.ofText d (text.take t.stop ++ ' ' :: text.drop t'.start)).all = .ok us ∧
      us.map Token.literals = (xs ++ t :: t' :: ys).map Token.literals ∧
      (us.map Token.word = (xs ++ t :: t' :: ys).map Token.word ↔
        ∀ x ∈ xs ++ [t], x.SeeksBy → Lexeme.startsWithBy (text.drop x.stop) =
          Lexeme.startsWithBy ((text.take t.stop ++ ' ' :: text.drop t'.start).drop x.stop)) ∧
      ((∀ c ∈ between text t.stop t'.start, Character.isBlank c = true) →
        us.map Token.word = (xs ++ t :: t' :: ys).map Token.word) := by
  obtain ⟨zs, last, hzs, hm, hleads, hspells⟩ := TokenStream.all_gap h hgap
  have hlength : (text.take t.stop).length = t.stop := List.length_take_of_le hm
  have hbehind : (text.take t.stop ++ ' ' :: text.drop t'.start).drop 0 =
      text.take t.stop ++ ' ' :: text.drop t'.start := rfl
  obtain ⟨us, hleads', hus⟩ := hleads.spaced (List.take_append_drop t.stop text).symm hbehind
  obtain ⟨ts, e, hall, hwords⟩ := hasWords_iff.2 (hleads'.spells hspells)
  obtain ⟨hliterals, htypes⟩ := respelled_words hus
  have hend : e.word = (Token.atEnd text.length).word := by
    have hlast := List.append_inj' (TokenStream.all_eq hall).2 rfl
    rw [List.singleton_inj.1 hlast.2]
    rfl
  have hts : xs ++ t :: t' :: ys = xs ++ [t] ++ zs ++ [Token.atEnd text.length] := by
    rw [hzs]
    simp
  have hspaced : (ts ++ [e]).map Token.word =
      us.map Token.word ++ (zs ++ [Token.atEnd text.length]).map Token.word := by
    simp [hwords, hend]
  have hiff : (ts ++ [e]).map Token.word = (xs ++ t :: t' :: ys).map Token.word ↔
      us.map Token.word = (xs ++ [t]).map Token.word := by
    rw [hspaced, hts, List.append_assoc, @List.map_append _ _ _ (xs ++ [t])]
    exact List.append_left_inj _
  refine ⟨ts ++ [e], hall, ?_, hiff.trans htypes, fun hblanks => ?_⟩
  · have hsnd : ∀ l : List Token, l.map Token.literals = (l.map Token.word).map Prod.snd := by
      intro l
      simp [Token.word]
    rw [hsnd, hspaced, List.map_append, ← hsnd, hliterals, ← hsnd, hts, List.append_assoc,
      @List.map_append _ _ _ (xs ++ [t])]
  · refine hiff.2 (htypes.2 fun x hx _ => Blanked.startsWithBy ?_)
    have hle := hleads.stop_le x hx
    rw [hlength, Nat.zero_add] at hle
    have hplaced := (TokenStream.all_tiling h).placed t' (by simp)
    exact blanked_between hle hgap (hplaced.1.trans hplaced.2) hblanks

theorem space_for_ignored_iff_comment :
    (TokenStream.ofText .mysql "a--\nGROUP BY".toList).all = .ok
      ([] ++ ⟨.literal .identifier, "a", 0, 1⟩ :: ⟨.keyword .GROUP, "GROUP", 4, 9⟩ ::
        [⟨.keyword .BY, "BY", 10, 12⟩, Token.atEnd 12]) ∧
    ∃ us, (TokenStream.ofText .mysql ("a--\nGROUP BY".toList.take 1 ++
        ' ' :: "a--\nGROUP BY".toList.drop 4)).all = .ok us ∧
      us.map Token.word = [(.literal .identifier, "a"), (.keyword .GROUP, "GROUP"),
        (.keyword .BY, "BY"), (.endOfText, "")] := by
  have hall : (TokenStream.ofText .mysql "a--\nGROUP BY".toList).all = .ok
      ([] ++ ⟨.literal .identifier, "a", 0, 1⟩ :: ⟨.keyword .GROUP, "GROUP", 4, 9⟩ ::
        [⟨.keyword .BY, "BY", 10, 12⟩, Token.atEnd 12]) := by
    decide +kernel
  obtain ⟨us, hus, -, htypes, -⟩ := space_for_ignored_iff hall (by decide)
  refine ⟨hall, us, hus, htypes.2 fun x hx hby => ?_⟩
  obtain rfl := List.mem_singleton.1 hx
  exact absurd hby.2 (by decide)

/-- A comment hides `BY`, a space does not. -/
theorem comment_hides_by :
    (TokenStream.ofText .mysql "ORDER/**/BY".toList).all = .ok
      ([] ++ ⟨.literal .identifier, "ORDER", 0, 5⟩ :: ⟨.keyword .BY, "BY", 9, 11⟩ ::
        [Token.atEnd 11]) ∧
    (TokenStream.ofText .mysql ("ORDER/**/BY".toList.take 5 ++
        ' ' :: "ORDER/**/BY".toList.drop 9)).all = .ok
      [⟨.keyword .ORDER, "ORDER", 0, 5⟩, ⟨.keyword .BY, "BY", 6, 8⟩, Token.atEnd 8] := by
  constructor <;> decide +kernel

end SqlFront

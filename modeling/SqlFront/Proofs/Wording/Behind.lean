import SqlFront.Proofs.Lexeme.Transparent
import SqlFront.Proofs.Wording.Basic

/-!
# Two texts that go on alike

Behind a word two texts may be the same, although other words stand in front. From there on they
have the same tokens, in places that are as far behind the word, and they are read side by side.
-/

set_option autoImplicit false

namespace SqlFront

variable {d : Dialect} {before last : Option Char} {x y rest a u : List Char} {k j n m p q : ℕ}
  {t t' : Token} {ts xs ys zs ws : List Token}

def EquallyBehind (n m p q : ℕ) : Prop := ∃ i, p = n + i ∧ q = m + i

theorem EquallyBehind.add (h : EquallyBehind n m p q) (i : ℕ) :
    EquallyBehind n m (p + i) (q + i) := by
  obtain ⟨l, rfl, rfl⟩ := h
  exact ⟨l + i, Nat.add_assoc n l i, Nat.add_assoc m l i⟩

structure Moved (n m : ℕ) (t u : Token) : Prop where
  word : SameWord t u
  start : EquallyBehind n m t.start u.start
  stop : EquallyBehind n m t.stop u.stop

structure MovedStream (n m : ℕ) (r s : TokenStream) : Prop where
  tokens : List.Forall₂ (Moved n m) r.tokens s.tokens
  ending : Both (Moved n m) r.ending s.ending

/-! ## Tokens -/

theorem moved_atEnd (h : EquallyBehind n m p q) : Moved n m (Token.atEnd p) (Token.atEnd q) :=
  ⟨⟨rfl, rfl⟩, h, h⟩

theorem TokenStream.scan_moved (hk : rest.length ≤ k) (hj : rest.length ≤ j)
    (h : EquallyBehind n m p q) :
    MovedStream n m (scan d k before p rest) (scan d j before q rest) := by
  induction k generalizing before j p q rest with
  | zero =>
    obtain rfl := List.eq_nil_of_length_eq_zero (Nat.le_zero.1 hk)
    cases j with
    | zero => exact ⟨.nil, .ok (moved_atEnd h)⟩
    | succ j =>
      simp only [scan, Piece.next_nil]
      exact ⟨.nil, .ok (moved_atEnd h)⟩
  | succ k ih =>
    cases j with
    | zero =>
      obtain rfl := List.eq_nil_of_length_eq_zero (Nat.le_zero.1 hj)
      simp only [scan, Piece.next_nil]
      exact ⟨.nil, .ok (moved_atEnd h)⟩
    | succ j =>
      cases hp : Piece.next d before rest with
      | error fault =>
        simp only [scan, hp]
        exact ⟨.nil, .error _ _⟩
      | ok piece =>
        cases piece with
        | atEnd =>
          simp only [scan, hp]
          exact ⟨.nil, .ok (moved_atEnd h)⟩
        | ignored i =>
          have hpos := (Piece.next_ignored hp).1
          simp only [scan, hp]
          exact ih (by rw [List.length_drop]; omega) (by rw [List.length_drop]; omega) (h.add i)
        | lexeme l =>
          have hpos := (Piece.next_covers hp).pos
          simp only [scan, hp, push]
          obtain ⟨htokens, hending⟩ := @ih (rest.take l.length).getLast? (rest.drop l.length) j
            (p + l.length) (q + l.length) (by rw [List.length_drop]; omega)
            (by rw [List.length_drop]; omega) (h.add l.length)
          exact ⟨.cons ⟨⟨rfl, rfl⟩, h, h.add l.length⟩ htokens, hending⟩

theorem Leads.no_tokens (h : Leads d a before n u ts last) (hts : ts = []) :
    u = [] ∧ last = before := by
  induction h with
  | nil => exact ⟨rfl, rfl⟩
  | ignored _ hk _ ih =>
    exact absurd hk (Nat.not_lt.2 (List.drop_eq_nil_iff.1 (ih hts).1))
  | lexeme => cases hts

theorem Leads.last_char (h : Leads d a before n u ts last) (hts : ts = xs ++ [t])
    (ht : t.type ≠ .literal .chars) : last = t.literals.toList.getLast? := by
  induction h generalizing xs with
  | nil => simp at hts
  | ignored _ _ _ ih => exact ih hts
  | @lexeme before last n u l ts hnext hle hrest ih =>
    cases xs with
    | cons _ xs => exact ih (List.cons.inj hts).2
    | nil =>
      obtain ⟨rfl, rfl⟩ := List.cons.inj hts
      have hspelled : l.literals = String.ofList ((u ++ a).take l.length) :=
        (Piece.next_covers hnext).spelled ht
      rw [List.take_append_of_le_length hle] at hspelled
      rw [(hrest.no_tokens rfl).2]
      change _ = l.literals.toList.getLast?
      rw [hspelled, String.toList_ofList]

/-- Behind the same word, texts that go on alike have the same words. -/
theorem TokenStream.moved_behind (hx : (ofText d x).tokens = xs ++ t :: zs)
    (hy : (ofText d y).tokens = ys ++ t' :: ws) (hword : SameWord t t')
    (ht : t.type ≠ .literal .chars) (htext : x.drop t.stop = y.drop t'.stop) :
    List.Forall₂ (Moved t.stop t'.stop) zs ws ∧
      Both (Moved t.stop t'.stop) (ofText d x).ending (ofText d y).ending := by
  obtain ⟨i, last, k, -, -, hstop, hleads, hk, hscan⟩ := scan_leads (n := 0) hx (Nat.le_refl _)
  obtain ⟨i', last', j, -, -, hstop', hleads', hj, hscan'⟩ :=
    scan_leads (n := 0) hy (Nat.le_refl _)
  rw [Nat.zero_add] at hstop hstop'
  subst hstop hstop'
  have hlast : last = last' := by
    rw [hleads.last_char rfl ht, hleads'.last_char rfl (hword.type ▸ ht), hword.literals]
  have hmoved : MovedStream t.stop t'.stop (scan d k last t.stop (x.drop t.stop))
      (scan d j last t'.stop (x.drop t.stop)) := scan_moved hk (htext ▸ hj) ⟨0, rfl, rfl⟩
  rw [hscan, htext, hlast, hscan'] at hmoved
  exact ⟨hmoved.tokens, hmoved.ending⟩

/-! ## Cursors -/

structure CursorsBehind (x y : List Char) (n m : ℕ) (c c' : Cursor) : Prop where
  dialect : c.dialect = c'.dialect
  text : c.text = x
  text' : c'.text = y
  current : Moved n m c.current c'.current
  previous : EquallyBehind n m c.previousStop c'.previousStop
  ahead : MovedStream n m c.ahead c'.ahead

theorem CursorsBehind.advance {c c' : Cursor} (h : CursorsBehind x y n m c c') :
    Both (CursorsBehind x y n m) c.advance c'.advance := by
  have hpeek : Both (Moved n m) c.peek c'.peek := by
    unfold Cursor.peek
    have htokens := h.ahead.tokens
    generalize c.ahead.tokens = ts at htokens ⊢
    generalize c'.ahead.tokens = us at htokens ⊢
    cases htokens with
    | cons ht _ => exact .ok ht
    | nil =>
      have hending := h.ahead.ending
      generalize c.ahead.ending = r at hending ⊢
      generalize c'.ahead.ending = s at hending ⊢
      cases hending with
      | ok ht => exact .ok ht
      | error => exact .error _ _
  unfold Cursor.advance
  generalize c.peek = r at hpeek ⊢
  generalize c'.peek = s at hpeek ⊢
  cases hpeek with
  | error => exact .error _ _
  | ok ht =>
    refine .ok ⟨h.dialect, h.text, h.text', ht, h.current.stop, ?_, h.ahead.ending⟩
    have htokens := h.ahead.tokens
    generalize c.ahead.tokens = ts at htokens ⊢
    generalize c'.ahead.tokens = us at htokens ⊢
    cases htokens with
    | nil => exact .nil
    | cons _ htokens => exact htokens

theorem Cursor.behind_token {sql : String} {c c' : Cursor} (hr : (ofText d sql).Reaches c)
    (hf : c.Faces (t :: zs)) (hzs : zs ≠ []) (ha : c.advance = .ok c') :
    c'.dialect = d ∧ c'.text = sql.toList ∧ c'.previousStop = t.stop ∧
      c'.ahead.ending = (TokenStream.ofText d sql.toList).ending ∧
      zs = c'.current :: c'.ahead.tokens := by
  refine ⟨?_, ?_, ?_, ?_, ?_⟩
  · rw [advance_dialect ha, hr.dialect]
    rfl
  · rw [advance_text ha, hr.text]
    rfl
  · obtain ⟨z, -, rfl⟩ := advance_ok.1 ha
    exact congrArg Token.stop hf.current
  · rw [advance_ending ha, hr.ending]
    rfl
  · rcases (hf.advance ha).rest with hrest | ⟨hnil, -⟩
    · exact hrest.symm
    · exact (hzs hnil).elim

theorem cursorsBehind {sql sql' : String} {c₁ c₂ c c' : Cursor}
    (hx : (TokenStream.ofText d sql.toList).tokens = xs ++ t :: zs)
    (hy : (TokenStream.ofText d sql'.toList).tokens = ys ++ t' :: ws) (hword : SameWord t t')
    (ht : t.type ≠ .literal .chars) (htext : sql.toList.drop t.stop = sql'.toList.drop t'.stop)
    (hzs : zs ≠ []) (hr : (Cursor.ofText d sql).Reaches c₁)
    (hr' : (Cursor.ofText d sql').Reaches c₂) (hf : c₁.Faces (t :: zs)) (hf' : c₂.Faces (t' :: ws))
    (ha : c₁.advance = .ok c) (ha' : c₂.advance = .ok c') :
    CursorsBehind sql.toList sql'.toList t.stop t'.stop c c' := by
  obtain ⟨htokens, hending⟩ := TokenStream.moved_behind hx hy hword ht htext
  have hws : ws ≠ [] := by
    rintro rfl
    cases htokens
    exact hzs rfl
  obtain ⟨hd, ht, hp, he, hrest⟩ := Cursor.behind_token hr hf hzs ha
  obtain ⟨hd', ht', hp', he', hrest'⟩ := Cursor.behind_token hr' hf' hws ha'
  rw [hrest, hrest'] at htokens
  obtain ⟨hcurrent, hahead⟩ := List.forall₂_cons.1 htokens
  exact ⟨hd.trans hd'.symm, ht, ht', hcurrent, ⟨0, hp, hp'⟩, hahead, by rwa [he, he']⟩

theorem slice_behind {i l i' l' : ℕ} (htext : x.drop n = y.drop m)
    (hi : EquallyBehind n m i i') (hl : EquallyBehind n m l l') :
    slice x i l = slice y i' l' := by
  obtain ⟨a, rfl, rfl⟩ := hi
  obtain ⟨b, rfl, rfl⟩ := hl
  have hpart : ∀ (z : List Char) (o : ℕ),
      (z.take (o + b)).drop (o + a) = ((z.drop o).drop a).take (b - a) := by
    intro z o
    rw [List.drop_take, List.drop_drop, Nat.add_sub_add_left]
  rw [slice, slice, hpart, hpart, htext]

/-- Two texts side by side, from places on from which they are the same. What the edits are does
not matter. -/
def Pairing.behind (x y : List Char) (n m : ℕ) (htext : x.drop n = y.drop m) : Pairing where
  cursors := CursorsBehind x y n m
  places := EquallyBehind n m
  texts := Eq
  edits _ _ := True
  dialect h := h.dialect
  word h := h.current.word
  start h := h.current.start
  stop h := h.previous
  moves h := congrArg (· + 2) h.ahead.tokens.length_eq
  advance h := h.advance
  slice h hi hl := by
    rw [Cursor.slice, Cursor.slice, h.text, h.text']
    exact slice_behind htext hi hl
  trim h := congrArg trimmed h
  add _ _ _ := trivial

theorem alike_behind {sql sql' : String} {types : List TokenType} {w w' v v' : Workspace Findings}
    {b b' : Bool} (hx : (TokenStream.ofText d sql.toList).tokens = xs ++ t :: zs)
    (hy : (TokenStream.ofText d sql'.toList).tokens = ys ++ t' :: ws) (hword : SameWord t t')
    (ht : t.type ≠ .literal .chars) (htext : sql.toList.drop t.stop = sql'.toList.drop t'.stop)
    (hzs : zs ≠ []) (hr : (Cursor.ofText d sql).Reaches w.cursor)
    (hr' : (Cursor.ofText d sql').Reaches w'.cursor) (hf : w.cursor.Faces (t :: zs))
    (hf' : w'.cursor.Faces (t' :: ws)) (hsame : SameFindings w.draft w'.draft)
    (htypes : t.type ∈ types) (h : Parser.skipIf types w = .ok b v)
    (h' : Parser.skipIf types w' = .ok b' v') : b = true ∧ b' = true ∧
      Alike (Pairing.behind sql.toList sql'.toList t.stop t'.stop htext)
        (Pairing.behind sql.toList sql'.toList t.stop t'.stop htext).Found v v' := by
  obtain ⟨rfl, -, -⟩ := Parser.skipIf_front hf htypes h
  obtain ⟨rfl, -, -⟩ := Parser.skipIf_front hf' (hword.type ▸ htypes) h'
  obtain ⟨c, hc, rfl⟩ := (Parser.skipIf_ok.1 h).2
  obtain ⟨c', hc', rfl⟩ := (Parser.skipIf_ok.1 h').2
  exact ⟨rfl, rfl, cursorsBehind hx hy hword ht htext hzs hr hr' hf hf' hc hc', hsame, trivial⟩

end SqlFront

import SqlFront.Proofs.Cursor.Index
import SqlFront.Proofs.Parenthesis

/-!
# Calls of a cursor

A reader uses its cursor by a few calls. Whatever calls are made on a text that is made of tokens,
and in whatever order, the cursor stands at an index of these tokens, and the index alone decides
what a call answers and where it leads.
-/

set_option autoImplicit false

namespace SqlFront

open SqlFront.Parser

variable {d : Dialect} {sql : String} {text : List Char} {ts us inside more : List Token} {r : Token}
  {i j n m : ℕ} {f : Findings} {w : Workspace Findings}

/-! ## Calls -/

def Token.refusal (t : Token) : Fault := .unsupported t.start (.token t.type t.literals)

def Token.mismatch (t : Token) (type : TokenType) : Fault :=
  .malformed t.start (.unexpected (.token type) t.type t.literals)

inductive CursorCall
  | advance
  | peek
  | skipIf (types : List TokenType)
  | skipAll (types : List TokenType)
  | skipUntil (types : List TokenType)
  | expect (type : TokenType)
  | refuseIf (types : List TokenType)
  | skipOrRefuse (types : List TokenType)
  | skipParentheses

inductive CallAnswer
  | done
  | skipped (b : Bool)
  | token (t : Token)
  | text (s : String)
deriving DecidableEq

abbrev CallReply : Type := Except Fault CallAnswer

namespace CursorCall

def reader : CursorCall → Parser Findings CallAnswer
  | .advance => do
    Parser.advance
    return .done
  | .peek => do
    match (← cursor).peek with
    | .ok t => return .token t
    | .error fault => throw fault
  | .skipIf types => do return .skipped (← Parser.skipIf types)
  | .skipAll types => do
    Parser.skipAll types
    return .done
  | .skipUntil types => do
    Parser.skipUntil types
    return .done
  | .expect type => do
    Parser.expect type
    return .done
  | .refuseIf types => do
    Parser.refuseIf types
    return .done
  | .skipOrRefuse types => do
    Parser.skipOrRefuse types
    return .done
  | .skipParentheses => do return .text (← Parser.skipParentheses)

def run (call : CursorCall) (w : Workspace Findings) : CallReply × Workspace Findings :=
  match call.reader w with
  | .ok a v => (.ok a, v)
  | .error fault v => (.error fault, v)

def runAll : List CursorCall → Workspace Findings → List CallReply × Workspace Findings
  | [], w => ([], w)
  | call :: calls, w =>
    let here := call.run w
    let rest := runAll calls here.2
    (here.1 :: rest.1, rest.2)

/-- The call has a token to stop at: skipping all of some types goes on at the end of the text if
that is one of them. -/
def Stops : CursorCall → Prop
  | .skipAll types => .endOfText ∉ types
  | _ => True

inductive Effect (text : List Char) (ts : List Token) (i n : ℕ) :
    CursorCall → CallReply → ℕ → ℕ → Prop
  | advance : Effect text ts i n .advance (.ok .done) (i + 1) n
  | peek : Effect text ts i n .peek (.ok (.token (tokenAt text ts (i + 1)))) i n
  | skipped {types : List TokenType} : (tokenAt text ts i).type ∈ types →
      Effect text ts i n (.skipIf types) (.ok (.skipped true)) (i + 1) n
  | notSkipped {types : List TokenType} : (tokenAt text ts i).type ∉ types →
      Effect text ts i n (.skipIf types) (.ok (.skipped false)) i n
  | skippedAll {types : List TokenType} {j : ℕ} :
      IsLeast {k | i ≤ k ∧ (tokenAt text ts k).type ∉ types} j →
      Effect text ts i n (.skipAll types) (.ok .done) j n
  | skippedUntil {types : List TokenType} {j : ℕ} :
      IsLeast {k | i ≤ k ∧ ((tokenAt text ts k).type ∈ types ∨
        (tokenAt text ts k).type = .endOfText)} j →
      Effect text ts i n (.skipUntil types) (.ok .done) j n
  | expected {type : TokenType} : (tokenAt text ts i).type = type →
      Effect text ts i n (.expect type) (.ok .done) (i + 1) n
  | unexpected {type : TokenType} : (tokenAt text ts i).type ≠ type →
      Effect text ts i n (.expect type) (.error ((tokenAt text ts i).mismatch type)) i n
  | refused {types : List TokenType} : (tokenAt text ts i).type ∈ types →
      Effect text ts i n (.refuseIf types) (.error (tokenAt text ts i).refusal) i n
  | notRefused {types : List TokenType} : (tokenAt text ts i).type ∉ types →
      Effect text ts i n (.refuseIf types) (.ok .done) i n
  | skippedHere {types : List TokenType} : (tokenAt text ts i).type ∈ types →
      Effect text ts i n (.skipOrRefuse types) (.ok .done) (i + 1) n
  | refusedHere {types : List TokenType} : (tokenAt text ts i).type ∉ types →
      Effect text ts i n (.skipOrRefuse types) (.error (tokenAt text ts i).refusal) i n
  | noParenthesis : (tokenAt text ts i).type ≠ .symbol .leftParen →
      Effect text ts i n .skipParentheses (.ok (.text "")) i n
  | matched {inside more : List Token} {r : Token} :
      (tokenAt text ts i).type = .symbol .leftParen → Matches (ts.drop i) inside r more →
      Effect text ts i n .skipParentheses
        (.ok (.text (slice text (tokenAt text ts i).stop r.start)))
        (i + inside.length + 2) (n + placeholderCount inside)
  | unmatched : (tokenAt text ts i).type = .symbol .leftParen →
      (¬∃ inside r more, Matches (ts.drop i) inside r more) →
      Effect text ts i n .skipParentheses
        (.ok (.text (slice text (tokenAt text ts i).stop text.length)))
        ts.length (n + placeholderCount (ts.drop i))

inductive Effects (text : List Char) (ts : List Token) :
    ℕ → ℕ → List CursorCall → List CallReply → ℕ → ℕ → Prop
  | nil {i n : ℕ} : Effects text ts i n [] [] i n
  | cons {i n j m k l : ℕ} {call : CursorCall} {calls : List CursorCall} {reply : CallReply}
      {replies : List CallReply} : Effect text ts i n call reply j m →
      Effects text ts j m calls replies k l →
      Effects text ts i n (call :: calls) (reply :: replies) k l

theorem run_ok {call : CursorCall} {a : CallAnswer} {v : Workspace Findings}
    (h : call.reader w = .ok a v) : call.run w = (.ok a, v) := by
  rw [run, h]

theorem run_error {call : CursorCall} {fault : Fault} {v : Workspace Findings}
    (h : call.reader w = .error fault v) : call.run w = (.error fault, v) := by
  rw [run, h]

end CursorCall

/-! ## Matching parentheses up to the end of the text -/

theorem Matches.append (h : Matches us inside r more) (vs : List Token) :
    Matches (us ++ vs) inside r (more ++ vs) :=
  ⟨by rw [h.split, List.append_assoc, List.cons_append], h.rightParen, h.balanced⟩

theorem Matches.before_end (h : Matches (us ++ [Token.atEnd n]) inside r more) :
    ∃ more, Matches us inside r more := by
  obtain rfl | ⟨more, last, rfl⟩ := List.eq_nil_or_concat more
  · obtain ⟨-, hlast⟩ := List.append_inj' h.split rfl
    have hparen := h.rightParen
    rw [← List.singleton_inj.1 hlast] at hparen
    cases hparen
  · have hsplit : us ++ [Token.atEnd n] = (inside ++ r :: more) ++ [last] := by
      rw [h.split]
      simp
    exact ⟨more, (List.append_inj' hsplit rfl).1, h.rightParen, h.balanced⟩

/-! ## One call at an index -/

theorem exists_first {P : ℕ → Prop} {k : ℕ} (hik : i ≤ k) (hk : P k) :
    ∃ j, IsLeast {k | i ≤ k ∧ P k} j :=
  ⟨_, Nat.sInf_mem ⟨k, hik, hk⟩, fun _ hm => Nat.sInf_le hm⟩

structure AtIndex (d : Dialect) (sql : String) (i : ℕ) (f : Findings) (w : Workspace Findings) :
    Prop where
  steps : (Cursor.ofText d sql).steps i = .ok w.cursor
  draft : w.draft = f

def Underway (d : Dialect) (sql : String) (f : Findings) (i j n : ℕ) (w : Workspace Findings) :
    Prop :=
  ∃ k, i ≤ k ∧ k ≤ j ∧ n = j - k ∧ AtIndex d sql k f w

namespace AtIndex

variable (h : (TokenStream.ofText d sql.toList).all = .ok ts) (hw : AtIndex d sql i f w)

include h hw

theorem current : w.cursor.current = tokenAt sql.toList ts i := (Cursor.steps_ahead h hw.steps).1

theorem isAt_iff {type : TokenType} :
    w.cursor.isAt type = true ↔ (tokenAt sql.toList ts i).type = type := by
  rw [Cursor.isAt_iff, hw.current h]

theorem isAtAny_iff {types : List TokenType} :
    w.cursor.isAtAny types = true ↔ (tokenAt sql.toList ts i).type ∈ types := by
  rw [Cursor.isAtAny_iff, hw.current h]

theorem isAtAny_eq_false {types : List TokenType} (ht : (tokenAt sql.toList ts i).type ∉ types) :
    w.cursor.isAtAny types = false := by
  rwa [← Bool.not_eq_true, hw.isAtAny_iff h]

theorem advance : ∃ v, Parser.advance w = .ok () v ∧ AtIndex d sql (i + 1) f v := by
  obtain ⟨c, ha, hc⟩ := Cursor.steps_advance h hw.steps
  exact ⟨⟨c, w.draft⟩, advance_ok.2 ⟨c, ha, rfl⟩, hc, hw.draft⟩

theorem skipIf {types : List TokenType} (ht : (tokenAt sql.toList ts i).type ∈ types) :
    ∃ v, Parser.skipIf types w = .ok true v ∧ AtIndex d sql (i + 1) f v := by
  obtain ⟨c, ha, hc⟩ := Cursor.steps_advance h hw.steps
  have hskip : Parser.skipIf types w = .ok true ⟨c, w.draft⟩ :=
    skipIf_ok.2 ⟨(hw.isAtAny_iff h).2 ht, by rw [if_pos rfl]; exact ⟨c, ha, rfl⟩⟩
  exact ⟨_, hskip, hc, hw.draft⟩

theorem skipIf_other {types : List TokenType} (ht : (tokenAt sql.toList ts i).type ∉ types) :
    Parser.skipIf types w = .ok false w := skipIf_ok.2 ⟨hw.isAtAny_eq_false h ht, rfl⟩

theorem expect {type : TokenType} (ht : (tokenAt sql.toList ts i).type = type) :
    ∃ v, Parser.expect type w = .ok () v ∧ AtIndex d sql (i + 1) f v := by
  obtain ⟨c, ha, hc⟩ := Cursor.steps_advance h hw.steps
  exact ⟨⟨c, w.draft⟩, expect_ok.2 ⟨(hw.isAt_iff h).2 ht, c, ha, rfl⟩, hc, hw.draft⟩

theorem expect_other {type : TokenType} (ht : (tokenAt sql.toList ts i).type ≠ type) :
    Parser.expect type w = .error ((tokenAt sql.toList ts i).mismatch type) w := by
  have hat : w.cursor.isAt type = false := by
    rwa [← Bool.not_eq_true, hw.isAt_iff h]
  rw [← hw.current h]
  show (if w.cursor.isAt type = true then _ else failAt _ : Parser Findings Unit) w = _
  rw [hat]
  rfl

theorem refuseIf {types : List TokenType} (ht : (tokenAt sql.toList ts i).type ∈ types) :
    Parser.refuseIf types w = .error (tokenAt sql.toList ts i).refusal w := by
  rw [← hw.current h]
  show (if w.cursor.isAtAny types = true then failAt _ else pure () : Parser Findings Unit) w = _
  rw [(hw.isAtAny_iff h).2 ht]
  rfl

theorem refuseIf_other {types : List TokenType} (ht : (tokenAt sql.toList ts i).type ∉ types) :
    Parser.refuseIf types w = .ok () w := refuseIf_ok.2 ⟨hw.isAtAny_eq_false h ht, rfl⟩

theorem skipOrRefuse {types : List TokenType} (ht : (tokenAt sql.toList ts i).type ∈ types) :
    ∃ v, Parser.skipOrRefuse types w = .ok () v ∧ AtIndex d sql (i + 1) f v := by
  obtain ⟨v, hskip, hv⟩ := hw.skipIf h ht
  exact ⟨v, (bind_run hskip).trans rfl, hv⟩

theorem skipOrRefuse_other {types : List TokenType} (ht : (tokenAt sql.toList ts i).type ∉ types) :
    Parser.skipOrRefuse types w = .error (tokenAt sql.toList ts i).refusal w := by
  rw [← hw.current h]
  exact (bind_run (hw.skipIf_other h ht)).trans rfl

/-! ## Loops -/

/-- A loop that takes one step in each turn, up to the index `j`, ends there. The turns are fewer
than its bound. -/
theorem whileM {condition : Parser Findings Bool} {body : Parser Findings Unit} (hij : i ≤ j)
    (hj : j ≤ max i ts.length)
    (turn : ∀ k v, i ≤ k → k < j → AtIndex d sql k f v →
      Achieves v (whileTurn condition body ()) fun x v => x = .inl () ∧ AtIndex d sql (k + 1) f v)
    (last : ∀ v, AtIndex d sql j f v →
      Achieves v (whileTurn condition body ()) fun x v => x = .inr () ∧ AtIndex d sql j f v) :
    ∃ v, Parser.whileM condition body w = .ok () v ∧ AtIndex d sql j f v := by
  have hmoves : j - i < w.cursor.moves := by
    have hlength := length_of_all h
    rw [Cursor.moves, (Cursor.steps_ahead h hw.steps).2, List.length_drop]
    omega
  have hround : ∀ n (x : Unit) v, Underway d sql f i j n v →
      Achieves v (whileTurn condition body x)
        (Round n (fun n _ => Underway d sql f i j n) fun _ => AtIndex d sql j f) := by
    rintro n ⟨⟩ v ⟨k, hik, hkj, rfl, hv⟩
    by_cases hk : k < j
    · apply (turn k v hik hk hv).mono
      rintro x v' ⟨rfl, hv'⟩
      exact ⟨j - (k + 1), by omega, k + 1, by omega, by omega, rfl, hv'⟩
    · obtain rfl : k = j := by omega
      apply (last v hv).mono
      rintro x v' ⟨rfl, hv'⟩
      exact hv'
  have hloop : Achieves w (Parser.whileM condition body) fun _ v => AtIndex d sql j f v :=
    Settles.repeatFrom hround ⟨i, le_rfl, hij, rfl, hw⟩ hmoves
  obtain ⟨⟨⟩, v, hrun, hv⟩ := hloop.run
  exact ⟨v, hrun, hv⟩

/-- Tokens of the types are skipped up to the first of another type. -/
theorem skipAll {types : List TokenType}
    (hj : IsLeast {k | i ≤ k ∧ (tokenAt sql.toList ts k).type ∉ types} j)
    (hend : .endOfText ∉ types) :
    ∃ v, Parser.skipAll types w = .ok () v ∧ AtIndex d sql j f v := by
  have hle : j ≤ max i ts.length := by
    refine hj.2 ⟨le_max_left _ _, ?_⟩
    rw [tokenAt_end h (le_max_right _ _)]
    exact hend
  refine hw.whileM h hj.1.1 hle ?_ ?_
  · intro k v hik hkj hv
    have ht : (tokenAt sql.toList ts k).type ∈ types := by
      by_contra hnot
      exact absurd (hj.2 ⟨hik, hnot⟩) (Nat.not_le.2 hkj)
    obtain ⟨v', hskip, hv'⟩ := hv.skipIf h ht
    exact (settles_bind_ok hskip).2 ⟨rfl, hv'⟩
  · intro v hv
    exact (settles_bind_ok (hv.skipIf_other h hj.1.2)).2 ⟨rfl, hv⟩

theorem goesOn_iff (types : List TokenType) :
    (!w.cursor.isAtAny types && !w.cursor.isAtEnd) = true ↔
      ¬((tokenAt sql.toList ts i).type ∈ types ∨ (tokenAt sql.toList ts i).type = .endOfText) := by
  rw [Bool.and_eq_true, Bool.not_eq_true', Bool.not_eq_true', ← Bool.not_eq_true,
    ← Bool.not_eq_true, hw.isAtAny_iff h, Cursor.isAtEnd, hw.current h, beq_iff_eq, not_or]

/-- Tokens are skipped up to the first of the types or up to the end of the text. -/
theorem skipUntil {types : List TokenType}
    (hj : IsLeast {k | i ≤ k ∧ ((tokenAt sql.toList ts k).type ∈ types ∨
      (tokenAt sql.toList ts k).type = .endOfText)} j) :
    ∃ v, Parser.skipUntil types w = .ok () v ∧ AtIndex d sql j f v := by
  have hle : j ≤ max i ts.length := by
    refine hj.2 ⟨le_max_left _ _, Or.inr ?_⟩
    rw [tokenAt_end h (le_max_right _ _)]
    rfl
  refine hw.whileM h hj.1.1 hle ?_ ?_
  · intro k v hik hkj hv
    have hgoes := (hv.goesOn_iff h types).2 fun ht =>
      absurd (hj.2 ⟨hik, ht⟩) (Nat.not_le.2 hkj)
    have hcondition : Achieves v (do
        return !(← Parser.isAtAny types) && !(← cursor).isAtEnd) fun b x => b = true ∧ x = v :=
      ⟨hgoes, rfl⟩
    obtain ⟨v', ha, hv'⟩ := hv.advance h
    apply hcondition.bind
    rintro b x ⟨rfl, rfl⟩
    exact (settles_bind_ok ha).2 ⟨rfl, hv'⟩
  · intro v hv
    have hstays := Bool.eq_false_iff.2 fun hgoes =>
      (hv.goesOn_iff h types).1 hgoes hj.1.2
    have hcondition : Achieves v (do
        return !(← Parser.isAtAny types) && !(← cursor).isAtEnd) fun b x => b = false ∧ x = v :=
      ⟨hstays, rfl⟩
    apply hcondition.bind
    rintro b x ⟨rfl, rfl⟩
    exact ⟨rfl, hv⟩

/-! ## Parentheses -/

theorem skipParentheses_other (ht : (tokenAt sql.toList ts i).type ≠ .symbol .leftParen) :
    Parser.skipParentheses w = .ok "" w := by
  apply skipParentheses_elsewhere
  rwa [← Bool.not_eq_true, hw.isAt_iff h]

theorem entered (ht : (tokenAt sql.toList ts i).type = .symbol .leftParen) :
    Arrived d sql w.cursor ∧ i < ts.length := by
  constructor
  · cases i with
    | zero => cases ht
    | succ i => exact Cursor.arrived_of_steps hw.steps
  · by_contra hi
    rw [tokenAt_end h (Nat.le_of_not_lt hi)] at ht
    cases ht

theorem exists_ending : ∃ e, w.cursor.ahead.ending = .ok e :=
  ⟨_, by rw [(Cursor.steps_ahead h hw.steps).2]⟩

theorem skipParentheses_matched (ht : (tokenAt sql.toList ts i).type = .symbol .leftParen)
    (hm : Matches ((TokenStream.ofText d sql.toList).tokens.drop i) inside r more) :
    ∃ v, Parser.skipParentheses w =
        .ok (slice sql.toList (tokenAt sql.toList ts i).stop r.start) v ∧
      AtIndex d sql (i + inside.length + 2)
        { f with placeholders := f.placeholders + placeholderCount inside } v := by
  obtain ⟨c, _⟩ := w
  obtain rfl := hw.draft
  have hfaces := Cursor.steps_faces h hw.steps
  obtain ⟨v, hrun, hwalk, -, hdraft⟩ := SqlFront.skipParentheses_matched (hw.entered h ht).1
    (hw.exists_ending h) ht hfaces hm
  have hsteps := hwalk.steps hw.steps
  rw [List.length_cons, List.length_append, List.length_singleton] at hsteps
  exact ⟨v, hrun, hsteps, hdraft⟩

theorem skipParentheses_unmatched (ht : (tokenAt sql.toList ts i).type = .symbol .leftParen)
    (hnone : ¬∃ inside r more,
      Matches ((TokenStream.ofText d sql.toList).tokens.drop i) inside r more) :
    ∃ v, Parser.skipParentheses w =
        .ok (slice sql.toList (tokenAt sql.toList ts i).stop sql.toList.length) v ∧
      AtIndex d sql ts.length { f with
        placeholders := f.placeholders + placeholderCount
          ((TokenStream.ofText d sql.toList).tokens.drop i) } v := by
  obtain ⟨c, _⟩ := w
  obtain rfl := hw.draft
  have hfaces := Cursor.steps_faces h hw.steps
  obtain ⟨hc, hi⟩ := hw.entered h ht
  obtain ⟨v, hrun, hwalk, -, hdraft⟩ := SqlFront.skipParentheses_unmatched hc
    (hw.exists_ending h) ht hfaces hnone
  have hsteps := hwalk.steps hw.steps
  have hlast : i + ((TokenStream.ofText d sql.toList).tokens.length - i + 1) = ts.length := by
    have hlength := length_of_all h
    omega
  rw [List.length_cons, List.length_drop, hlast] at hsteps
  exact ⟨v, hrun, hsteps, hdraft⟩

end AtIndex

/-! ## Every call -/

def CursorCall.HasEffect (d : Dialect) (sql : String) (ts : List Token) (i : ℕ) (f : Findings)
    (w : Workspace Findings) (call : CursorCall) : Prop :=
  ∃ j m, call.Effect sql.toList ts i f.placeholders (call.run w).1 j m ∧
    AtIndex d sql j { f with placeholders := m } (call.run w).2

namespace AtIndex

variable {call : CursorCall} {a : CallAnswer} {v : Workspace Findings} {fault : Fault}

theorem succeeds (hrun : call.reader w = .ok a v)
    (heffect : call.Effect sql.toList ts i f.placeholders (.ok a) j m)
    (hv : AtIndex d sql j { f with placeholders := m } v) : call.HasEffect d sql ts i f w := by
  rw [CursorCall.HasEffect, CursorCall.run_ok hrun]
  exact ⟨j, m, heffect, hv⟩

theorem fails (hw : AtIndex d sql i f w) (hrun : call.reader w = .error fault w)
    (heffect : call.Effect sql.toList ts i f.placeholders (.error fault) i f.placeholders) :
    call.HasEffect d sql ts i f w := by
  rw [CursorCall.HasEffect, CursorCall.run_error hrun]
  exact ⟨i, f.placeholders, heffect, hw⟩

variable (h : (TokenStream.ofText d sql.toList).all = .ok ts) (hw : AtIndex d sql i f w)

include h hw

theorem skipParentheses_effect : CursorCall.skipParentheses.HasEffect d sql ts i f w := by
  by_cases ht : (tokenAt sql.toList ts i).type = .symbol .leftParen
  · have hdrop := drop_of_all h (hw.entered h ht).2
    by_cases hm : ∃ inside r more, Matches (ts.drop i) inside r more
    · obtain ⟨inside, r, more, hm⟩ := hm
      obtain ⟨_, hm'⟩ := (hdrop ▸ hm).before_end
      obtain ⟨v, hrun, hv⟩ := hw.skipParentheses_matched h ht hm'
      exact succeeds ((bind_run hrun).trans rfl) (.matched ht hm) hv
    · have hnone : ¬∃ inside r more,
          Matches ((TokenStream.ofText d sql.toList).tokens.drop i) inside r more := by
        rintro ⟨inside, r, more, hm'⟩
        exact hm ⟨inside, r, _, hdrop ▸ hm'.append _⟩
      obtain ⟨v, hrun, hv⟩ := hw.skipParentheses_unmatched h ht hnone
      have hcount : placeholderCount (ts.drop i) =
          placeholderCount ((TokenStream.ofText d sql.toList).tokens.drop i) := by
        rw [hdrop, placeholderCount_append, placeholderCount_of_ne (by simp [Token.atEnd]),
          Nat.add_zero]
      exact succeeds ((bind_run hrun).trans rfl) (.unmatched ht hm) (hcount ▸ hv)
  · exact succeeds ((bind_run (hw.skipParentheses_other h ht)).trans rfl) (.noParenthesis ht) hw

theorem hasEffect (hcall : call.Stops) : call.HasEffect d sql ts i f w := by
  cases call with
  | advance =>
    obtain ⟨v, hrun, hv⟩ := hw.advance h
    exact succeeds ((bind_run hrun).trans rfl) .advance hv
  | peek =>
    have hrun : CursorCall.peek.reader w =
        .ok (.token (tokenAt sql.toList ts (i + 1))) w := by
      show (match w.cursor.peek with
        | .ok t => pure (CallAnswer.token t)
        | .error fault => throw fault : Parser Findings CallAnswer) w = _
      rw [Cursor.steps_peek h hw.steps]
      rfl
    exact succeeds hrun .peek hw
  | skipIf types =>
    by_cases ht : (tokenAt sql.toList ts i).type ∈ types
    · obtain ⟨v, hrun, hv⟩ := hw.skipIf h ht
      exact succeeds ((bind_run hrun).trans rfl) (.skipped ht) hv
    · exact succeeds ((bind_run (hw.skipIf_other h ht)).trans rfl) (.notSkipped ht) hw
  | skipAll types =>
    have hend : (tokenAt sql.toList ts (max i ts.length)).type ∉ types := by
      rw [tokenAt_end h (le_max_right _ _)]
      exact hcall
    obtain ⟨j, hj⟩ := exists_first (P := fun k => (tokenAt sql.toList ts k).type ∉ types)
      (le_max_left i ts.length) hend
    obtain ⟨v, hrun, hv⟩ := hw.skipAll h hj hcall
    exact succeeds ((bind_run hrun).trans rfl) (.skippedAll hj) hv
  | skipUntil types =>
    have hend : (tokenAt sql.toList ts (max i ts.length)).type = .endOfText := by
      rw [tokenAt_end h (le_max_right _ _)]
      rfl
    obtain ⟨j, hj⟩ := exists_first (P := fun k => (tokenAt sql.toList ts k).type ∈ types ∨
      (tokenAt sql.toList ts k).type = .endOfText) (le_max_left i ts.length) (Or.inr hend)
    obtain ⟨v, hrun, hv⟩ := hw.skipUntil h hj
    exact succeeds ((bind_run hrun).trans rfl) (.skippedUntil hj) hv
  | expect type =>
    by_cases ht : (tokenAt sql.toList ts i).type = type
    · obtain ⟨v, hrun, hv⟩ := hw.expect h ht
      exact succeeds ((bind_run hrun).trans rfl) (.expected ht) hv
    · exact hw.fails (bind_error (hw.expect_other h ht)) (.unexpected ht)
  | refuseIf types =>
    by_cases ht : (tokenAt sql.toList ts i).type ∈ types
    · exact hw.fails (bind_error (hw.refuseIf h ht)) (.refused ht)
    · exact succeeds ((bind_run (hw.refuseIf_other h ht)).trans rfl) (.notRefused ht) hw
  | skipOrRefuse types =>
    by_cases ht : (tokenAt sql.toList ts i).type ∈ types
    · obtain ⟨v, hrun, hv⟩ := hw.skipOrRefuse h ht
      exact succeeds ((bind_run hrun).trans rfl) (.skippedHere ht) hv
    · exact hw.fails (bind_error (hw.skipOrRefuse_other h ht)) (.refusedHere ht)
  | skipParentheses => exact hw.skipParentheses_effect h

/-- The index goes along with the calls of a run, one after the other. -/
theorem runAll_effects {calls : List CursorCall} (hcalls : ∀ call ∈ calls, call.Stops) :
    ∃ j m, CursorCall.Effects sql.toList ts i f.placeholders calls (CursorCall.runAll calls w).1 j m ∧
      AtIndex d sql j { f with placeholders := m } (CursorCall.runAll calls w).2 := by
  induction calls generalizing i f w with
  | nil => exact ⟨i, f.placeholders, .nil, hw⟩
  | cons call calls ih =>
    rw [List.forall_mem_cons] at hcalls
    obtain ⟨j, m, heffect, hv⟩ := hw.hasEffect h hcalls.1
    obtain ⟨k, l, heffects, hv'⟩ := ih hv hcalls.2
    exact ⟨k, l, .cons heffect heffects, hv'⟩

end AtIndex

/-! ## Every run -/

/-- The last token is the end of the text, and the end is also behind it. Whatever calls are made,
the cursor stands at an index of the tokens: it is as many steps from the start, and it shows the
token with this number and those next to it, as does a scanner that has read as many tokens from the
text one by one. What a call answers, whether it fails, and the index behind it follow from the index
in front of it. -/
theorem cursor_refines_index (h : (TokenStream.ofText d sql.toList).all = .ok ts) (f : Findings)
    {calls : List CursorCall} (hcalls : ∀ call ∈ calls, call.Stops) :
    (∀ i, ts.length ≤ i → tokenAt sql.toList ts i = Token.atEnd sql.toList.length) ∧
    ∃ replies w i, CursorCall.runAll calls ⟨Cursor.ofText d sql, f⟩ = (replies, w) ∧
      CursorCall.Effects sql.toList ts 0 f.placeholders calls replies i w.draft.placeholders ∧
      w.draft = { f with placeholders := w.draft.placeholders } ∧
      (Cursor.ofText d sql).steps i = .ok w.cursor ∧
      ShowsAt sql.toList ts i w.cursor.current w.cursor.peek w.cursor.previousStop ∧
      ∃ s, (Scanner.ofText d sql).steps i = .ok s ∧
        ShowsAt sql.toList ts i s.current s.peek s.previousStop := by
  refine ⟨fun i hi => tokenAt_end h hi, ?_⟩
  have hstart : AtIndex d sql 0 f ⟨Cursor.ofText d sql, f⟩ := ⟨rfl, rfl⟩
  obtain ⟨i, m, heffects, hw⟩ := hstart.runAll_effects h hcalls
  have hcount : (CursorCall.runAll calls ⟨Cursor.ofText d sql, f⟩).2.draft.placeholders = m := by
    rw [hw.draft]
  rw [← hcount] at heffects
  exact ⟨_, _, i, rfl, heffects, by rw [hcount]; exact hw.draft, hw.steps,
    Cursor.steps_shows h hw.steps, Scanner.steps_shows h i⟩

/-- Calls that fail leave the index, skipping a group counts the placeholder in it, and from the end
of the text there is no way further. -/
theorem cursor_refines_index_group : ∃ ts calls replies w i,
    (TokenStream.ofText .mysql "SELECT  f(?, (.5)), b".toList).all = .ok ts ∧
    calls = [.expect (.keyword .SELECT), .skipAll [.error, .keyword .SELECT], .peek, .advance,
      .skipParentheses, .skipOrRefuse [.symbol .comma], .refuseIf [.literal .identifier],
      .skipUntil [.keyword .WHERE], .advance] ∧
    (∀ call ∈ calls, call.Stops) ∧
    CursorCall.runAll calls ⟨Cursor.ofText .mysql "SELECT  f(?, (.5)), b", { kind := .dql }⟩ =
      (replies, w) ∧
    replies = [.error (Token.unread.mismatch (.keyword .SELECT)), .ok .done,
      .ok (.token ⟨.symbol .leftParen, "(", 9, 10⟩), .ok .done, .ok (.text "?, (.5)"), .ok .done,
      .error (Token.refusal ⟨.literal .identifier, "b", 20, 21⟩), .ok .done, .ok .done] ∧
    w.draft.placeholders = 1 ∧
    ShowsAt "SELECT  f(?, (.5)), b".toList ts i w.cursor.current w.cursor.peek
      w.cursor.previousStop := by
  have hall : (TokenStream.ofText .mysql "SELECT  f(?, (.5)), b".toList).all =
      .ok [⟨.keyword .SELECT, "SELECT", 0, 6⟩, ⟨.literal .identifier, "f", 8, 9⟩,
        ⟨.symbol .leftParen, "(", 9, 10⟩, ⟨.symbol .question, "?", 10, 11⟩,
        ⟨.symbol .comma, ",", 11, 12⟩, ⟨.symbol .leftParen, "(", 13, 14⟩,
        ⟨.literal .float, ".5", 14, 16⟩, ⟨.symbol .rightParen, ")", 16, 17⟩,
        ⟨.symbol .rightParen, ")", 17, 18⟩, ⟨.symbol .comma, ",", 18, 19⟩,
        ⟨.literal .identifier, "b", 20, 21⟩, Token.atEnd 21] := by
    decide +kernel
  have hstops : ∀ call ∈ [CursorCall.expect (.keyword .SELECT),
      .skipAll [.error, .keyword .SELECT], .peek, .advance, .skipParentheses,
      .skipOrRefuse [.symbol .comma], .refuseIf [.literal .identifier],
      .skipUntil [.keyword .WHERE], .advance], call.Stops := by
    simp [CursorCall.Stops]
  obtain ⟨-, replies, w, i, hrun, -, -, -, hshows, -⟩ :=
    cursor_refines_index hall { kind := .dql } hstops
  have hcount : (CursorCall.runAll [.expect (.keyword .SELECT),
      .skipAll [.error, .keyword .SELECT], .peek, .advance, .skipParentheses,
      .skipOrRefuse [.symbol .comma], .refuseIf [.literal .identifier],
      .skipUntil [.keyword .WHERE], .advance]
      ⟨Cursor.ofText .mysql "SELECT  f(?, (.5)), b", { kind := .dql }⟩).2.draft.placeholders = 1 := by
    decide +kernel
  rw [hrun] at hcount
  refine ⟨_, _, replies, w, i, hall, rfl, hstops, hrun, ?_, hcount, hshows⟩
  exact (congrArg Prod.fst hrun).symm.trans (by decide +kernel)

end SqlFront

import SqlFront.Proofs.Cursor.Order
import SqlFront.Proofs.Lexeme.Placed
import SqlFront.Proofs.Lexeme.Transparent
import SqlFront.Proofs.Parser.Settling

/-!
# Where a parser fails

A cursor inside a text stands on a token of it, and behind another one as soon as it has moved. From
such a cursor a parser comes to such a cursor, or fails at a place of the text that a token gives.
There is one rule for each way to put parsers together, and one for each parser of a single token.
-/

set_option autoImplicit false

namespace SqlFront

open SqlFront.Parser

variable {d : Dialect} {sql : String} {c c' : Cursor} {t : Token} {fault : Fault}

/-! ## Places of tokens -/

def IsTokenOf (d : Dialect) (sql : String) (t : Token) : Prop :=
  t ∈ (TokenStream.ofText d sql.toList).tokens ∨ (TokenStream.ofText d sql.toList).ending = .ok t

/-- A fault in the text is where no token begins, and every other fault is at the start of a token;
only a wrong column index is told from the end of one. Faults that are not about a text have no
place. -/
def Fault.SitedIn (d : Dialect) (sql : String) : Fault → Prop
  | .lexical n cause => (TokenStream.ofText d sql.toList).ending = .error ⟨n, cause⟩
  | .malformed n (.columnIndex _) => ∃ t, IsTokenOf d sql t ∧ n = t.stop
  | .malformed n _ => ∃ t, IsTokenOf d sql t ∧ n = t.start
  | .unsupported n _ => ∃ t, IsTokenOf d sql t ∧ n = t.start
  | _ => True

structure Cursor.StandsOn (d : Dialect) (sql : String) (c : Cursor) : Prop where
  current : IsTokenOf d sql c.current
  ahead : ∀ t ∈ c.ahead.tokens, t ∈ (TokenStream.ofText d sql.toList).tokens
  ending : c.ahead.ending = (TokenStream.ofText d sql.toList).ending

structure Cursor.StandsBehind (d : Dialect) (sql : String) (c : Cursor) : Prop
    extends c.StandsOn d sql where
  previous : ∃ t, IsTokenOf d sql t ∧ c.previousStop = t.stop

namespace Cursor

theorem peek_sited (hahead : ∀ t ∈ c.ahead.tokens, t ∈ (TokenStream.ofText d sql.toList).tokens)
    (hending : c.ahead.ending = (TokenStream.ofText d sql.toList).ending) (h : c.peek = .ok t) :
    IsTokenOf d sql t := by
  rcases peek_ok.1 h with h | ⟨-, h⟩
  · exact .inl (hahead t (List.mem_of_mem_head? h))
  · exact .inr (hending ▸ h)

theorem ofText_standsOn (h : (ofText d sql).advance = .ok c) : c.StandsOn d sql := by
  obtain ⟨t, ht, rfl⟩ := advance_ok.1 h
  exact ⟨peek_sited (fun _ h => h) rfl ht, fun _ h => List.mem_of_mem_tail h, rfl⟩

theorem StandsOn.advance (h : c.StandsOn d sql) (hc : c.advance = .ok c') :
    c'.StandsBehind d sql := by
  obtain ⟨t, ht, rfl⟩ := advance_ok.1 hc
  have hahead : ∀ u ∈ c.ahead.tokens.tail, u ∈ (TokenStream.ofText d sql.toList).tokens :=
    fun u hu => h.ahead u (List.mem_of_mem_tail hu)
  exact ⟨⟨peek_sited h.ahead h.ending ht, hahead, h.ending⟩, c.current, h.current, rfl⟩

theorem peek_fault (hending : c.ahead.ending = (TokenStream.ofText d sql.toList).ending)
    (h : c.peek = .error fault) : fault.SitedIn d sql := by
  unfold peek at h
  split at h
  · cases h
  · rw [hending] at h
    cases hend : (TokenStream.ofText d sql.toList).ending with
    | ok t =>
      rw [hend] at h
      cases h
    | error e =>
      rw [hend] at h
      obtain rfl : Fault.ofLexical e = fault := Except.error.inj h
      exact hend

theorem advance_fault (hending : c.ahead.ending = (TokenStream.ofText d sql.toList).ending)
    (h : c.advance = .error fault) : fault.SitedIn d sql := by
  unfold advance at h
  cases hpeek : c.peek with
  | ok t =>
    rw [hpeek] at h
    cases h
  | error e =>
    rw [hpeek] at h
    obtain rfl : e = fault := Except.error.inj h
    exact peek_fault hending hpeek

theorem StandsOn.refusal (h : c.StandsOn d sql) : c.refusal.SitedIn d sql :=
  ⟨c.current, h.current, rfl⟩

theorem StandsOn.unexpected (h : c.StandsOn d sql) (e : Expectation) :
    (c.unexpected e).SitedIn d sql :=
  ⟨c.current, h.current, rfl⟩

end Cursor

/-! ## Parsers -/

namespace Parser

variable {σ τ α β : Type}

def Sited (d : Dialect) (sql : String) (p : Parser σ α) (A : α → Prop) : Prop :=
  ∀ ⦃w : Workspace σ⦄, w.cursor.StandsBehind d sql →
    Settles w p (fun a v => v.cursor.StandsBehind d sql ∧ A a) (Fault.SitedIn d sql)

abbrev SitedAny (d : Dialect) (sql : String) (p : Parser σ α) : Prop := Sited d sql p fun _ => True

variable {p q : Parser σ α} {f : α → Parser σ β} {A : α → Prop} {B : β → Prop} {ts : List TokenType}

namespace Sited

theorem pure {a : α} (h : A a) : Sited d sql (Pure.pure a : Parser σ α) A :=
  fun _ hw => Settles.pure ⟨hw, h⟩

theorem any (h : Sited d sql p A) : SitedAny d sql p :=
  fun _ hw => (h hw).mono fun _ _ h => ⟨h.1, trivial⟩

theorem bind (hp : Sited d sql p A) (hf : ∀ a, A a → Sited d sql (f a) B) :
    Sited d sql (p >>= f) B :=
  fun _ hw => (hp hw).bind fun a _ h => hf a h.2 h.1

/-- What follows does not depend on the result. -/
theorem next (hp : SitedAny d sql p) (hf : ∀ a, Sited d sql (f a) B) : Sited d sql (p >>= f) B :=
  hp.bind fun a _ => hf a

theorem ite {b : Prop} [Decidable b] (hp : Sited d sql p A) (hq : Sited d sql q A) :
    Sited d sql (if b then p else q) A := by
  split
  · exact hp
  · exact hq

theorem throw (h : fault.SitedIn d sql) : Sited d sql (MonadExcept.throw fault : Parser σ α) A :=
  fun _ _ => h

theorem failAt {g : Cursor → Fault} (h : ∀ c, c.StandsBehind d sql → (g c).SitedIn d sql) :
    Sited d sql (failAt g : Parser σ α) A :=
  fun w hw => h w.cursor hw

theorem discard (hp : Sited d sql p A) : SitedAny d sql (Functor.discard p) :=
  hp.bind fun _ _ => .pure trivial

theorem onFindings [HasFindings σ] {p : Parser Findings α} (hp : Sited d sql p A) :
    Sited d sql (onFindings p : Parser σ α) A :=
  fun w hw => settles_onFindings.2 (hp (w := ⟨w.cursor, findings w.draft⟩) hw)

theorem inside {own : τ} {p : Parser τ α} (hp : Sited d sql p A) :
    Sited d sql (inside own p : Parser σ (τ × α)) fun r => A r.2 := by
  intro w hw
  have hrun := hp (w := ⟨w.cursor, own⟩) hw
  unfold Settles Parser.inside at *
  cases hr : p ⟨w.cursor, own⟩ <;> rw [hr] at hrun <;> exact hrun

end Sited

/-! ## Single tokens -/

theorem sited_current : Sited d sql (current : Parser σ Token) (IsTokenOf d sql) :=
  fun _ hw => settles_current.2 (Settles.pure ⟨hw, hw.current⟩)

theorem sited_cursor : Sited d sql (cursor : Parser σ Cursor) (Cursor.StandsBehind d sql) :=
  fun _ hw => settles_cursor.2 (Settles.pure ⟨hw, hw⟩)

theorem sited_draft : SitedAny d sql (draft : Parser σ σ) :=
  fun _ hw => settles_draft.2 (Settles.pure ⟨hw, trivial⟩)

theorem sited_grammar : SitedAny d sql (grammar : Parser σ Grammar) :=
  fun _ hw => settles_grammar.2 (Settles.pure ⟨hw, trivial⟩)

theorem sited_modifyDraft {g : σ → σ} : SitedAny d sql (modifyDraft g) :=
  fun _ hw => ⟨hw, trivial⟩

theorem sited_isAt {x : TokenType} : SitedAny d sql (isAt x : Parser σ Bool) :=
  fun _ hw => settles_isAt.2 (Settles.pure ⟨hw, trivial⟩)

theorem sited_isAtAny : SitedAny d sql (isAtAny ts : Parser σ Bool) :=
  fun _ hw => settles_isAtAny.2 (Settles.pure ⟨hw, trivial⟩)

theorem settles_step {w : Workspace σ} (hw : w.cursor.StandsOn d sql) :
    Settles w Parser.advance (fun _ v => v.cursor.StandsBehind d sql) (Fault.SitedIn d sql) := by
  unfold Parser.advance
  apply settles_cursor.2
  cases hc : w.cursor.advance with
  | ok c => exact hw.advance hc
  | error fault => exact Cursor.advance_fault hw.ending hc

theorem sited_advance : SitedAny d sql (advance : Parser σ Unit) :=
  fun _ hw => (settles_step hw.toStandsOn).mono fun _ _ h => ⟨h, trivial⟩

theorem sited_peekType : SitedAny d sql (peekType : Parser σ TokenType) := by
  intro w hw
  unfold peekType
  apply settles_cursor.2
  cases hpeek : w.cursor.peek with
  | ok t => exact ⟨hw, trivial⟩
  | error fault => exact Cursor.peek_fault hw.ending hpeek

theorem sited_isAhead {x : TokenType} : SitedAny d sql (isAhead x : Parser σ Bool) :=
  sited_peekType.next fun _ => .pure trivial

theorem sited_isAtSubQuery : SitedAny d sql (isAtSubQuery : Parser σ Bool) := by
  refine sited_isAt.next fun b => ?_
  exact .ite sited_isAhead (.pure trivial)

theorem sited_skipIf : SitedAny d sql (skipIf ts : Parser σ Bool) := by
  refine sited_isAtAny.next fun b => ?_
  exact .ite (sited_advance.next fun _ => .pure trivial) (.pure trivial)

theorem sited_skipKeyword {k : Keyword} : SitedAny d sql (skipKeyword k : Parser σ Bool) :=
  sited_skipIf

theorem sited_skipSymbol {s : Symbol} : SitedAny d sql (skipSymbol s : Parser σ Bool) :=
  sited_skipIf

theorem sited_expect {x : TokenType} : SitedAny d sql (expect x : Parser σ Unit) := by
  refine sited_isAt.next fun b => ?_
  exact .ite sited_advance (.failAt fun c hc => hc.toStandsOn.unexpected _)

theorem sited_refuseIf : SitedAny d sql (refuseIf ts : Parser σ Unit) := by
  refine sited_isAtAny.next fun b => ?_
  exact .ite (.failAt fun c hc => hc.toStandsOn.refusal) (.pure trivial)

/-! ## Repetition -/

/-- Each round answers a state of the kind that the rounds begin with, or the result. A repetition
that stands still has no place in the text. -/
theorem Sited.repeatFrom {step : α → Parser σ (α ⊕ β)} {a : α}
    (h : ∀ a, A a → Sited d sql (step a) (Sum.elim A B)) (ha : A a) :
    Sited d sql (repeatFrom a step) B := by
  -- by induction on the bound, which takes no part in where a round leads
  have hfor : ∀ n a, A a → Sited d sql (repeatFor step n a) B := by
    intro n
    induction n with
    | zero => exact fun a _ => .throw trivial
    | succ n ih =>
      intro a ha
      unfold Parser.repeatFor
      refine (h a ha).bind fun r hr => ?_
      cases r with
      | inl a => exact ih a hr
      | inr b => exact .pure hr
  exact sited_cursor.bind fun c _ => hfor c.moves a ha

theorem Sited.whileM {condition : Parser σ Bool} {body : Parser σ Unit}
    (hc : SitedAny d sql condition) (hb : SitedAny d sql body) :
    SitedAny d sql (whileM condition body) := by
  refine .repeatFrom (A := fun _ => True) (fun _ _ => hc.next fun b => ?_) trivial
  exact .ite (hb.next fun _ => .pure trivial) (.pure trivial)

theorem Sited.separated {item : Parser σ α} (h : SitedAny d sql item) :
    SitedAny d sql (separated ts item) := by
  refine .repeatFrom (A := fun _ => True) (fun _ _ => h.next fun x => sited_skipIf.next fun b => ?_)
    trivial
  exact .ite (.pure trivial) (.pure trivial)

theorem Sited.forM {f : α → Parser σ PUnit} {as : List α} (h : ∀ a, SitedAny d sql (f a)) :
    SitedAny d sql (as.forM f) := by
  induction as with
  | nil => exact .pure trivial
  | cons a as ih => exact (h a).next fun _ => ih

theorem Sited.commaSeparated {item : Parser σ α} (h : SitedAny d sql item) :
    SitedAny d sql (commaSeparated item) :=
  h.separated

theorem sited_skipAll : SitedAny d sql (skipAll ts : Parser σ Unit) :=
  .whileM sited_skipIf (.pure trivial)

theorem sited_skipUntil : SitedAny d sql (skipUntil ts : Parser σ Unit) := by
  refine .whileM (sited_isAtAny.next fun b => ?_) sited_advance
  exact sited_cursor.any.next fun c => .pure trivial

/-! ## Runs of tokens -/

theorem sited_countPlaceholder : SitedAny d sql countPlaceholder :=
  sited_draft.next fun _ => sited_modifyDraft.next fun _ => .pure trivial

theorem sited_skipToken : SitedAny d sql skipToken := by
  refine sited_isAt.next fun b => .ite ?_ sited_advance
  exact sited_countPlaceholder.next fun _ => sited_advance

theorem sited_skipParentheses : SitedAny d sql skipParentheses := by
  refine sited_isAt.next fun b => .ite ?_ (.pure trivial)
  refine sited_current.any.next fun t => sited_advance.next fun _ => ?_
  refine .repeatFrom (A := fun _ => True) (fun depth _ => ?_) trivial
  refine sited_current.any.next fun t => ?_
  split
  · exact sited_countPlaceholder.next fun _ => sited_advance.next fun _ => .pure trivial
  · exact sited_advance.next fun _ => .pure trivial
  · refine sited_advance.next fun _ => .ite ?_ (.pure trivial)
    exact sited_cursor.any.next fun c => .pure trivial
  · exact sited_cursor.any.next fun c => .pure trivial
  · exact sited_advance.next fun _ => .pure trivial

end Parser

end SqlFront

/-!
## Where no token begins

Cutting a text stops where no token begins. That place is in the text, and the tokens in front of it
end before it. It is where the piece begins that is none, or behind the letter of a national string.
-/

namespace SqlFront

variable {d : Dialect} {before : Option Char} {rest : List Char} {t : Token} {k n offset : ℕ}

/-! ## One piece -/

namespace Piece

theorem here_fault {r : Except LexicalCause Lexeme} {fault : LexicalFault}
    (h : here r = .error fault) : fault.offset = 0 := by
  cases r with
  | ok x => cases h
  | error cause =>
    obtain rfl := Except.error.inj h
    rfl

theorem nationalString_fault {fault : LexicalFault} (h : nationalString rest = .error fault) :
    fault.offset = 1 := by
  unfold nationalString at h
  split at h
  · cases h
  · obtain rfl := Except.error.inj h
    rfl

theorem significant_fault {fault : LexicalFault} (h : significant d before rest = .error fault) :
    fault.offset ≤ rest.length := by
  simp only [significant] at h
  split at h
  · cases h
  split at h
  · next hfirst =>
    rw [nationalString_fault h]
    apply lt_length_of_charAt
    simp only [Bool.and_eq_true, Bool.or_eq_true, beq_iff_eq] at hfirst
    rcases hfirst.1.2 with hc | hc
    · rw [hc]
      decide
    · rw [hc]
      decide
  split at h
  · rw [here_fault h]
    exact Nat.zero_le _
  split at h
  · cases h
  split at h
  · cases h
  split at h
  · rw [here_fault h]
    exact Nat.zero_le _
  split at h
  · rw [here_fault h]
    exact Nat.zero_le _
  split at h
  · cases h
  · obtain rfl := Except.error.inj h
    exact Nat.zero_le _

theorem next_fault {fault : LexicalFault} (h : next d before rest = .error fault) :
    fault.offset ≤ rest.length := by
  unfold next at h
  split at h
  · obtain rfl := Except.error.inj h
    exact Nat.zero_le _
  · exact significant_fault h
  · cases h

theorem next_ignored_le (h : next d before rest = .ok (.ignored k)) : k ≤ rest.length := by
  have hskipped : SkippedBetween d.lexis rest 0 (0 + k) :=
    Ignored.stretch_skipped (next_ignored h).2
  rw [Nat.zero_add] at hskipped
  exact hskipped.le_length (Nat.zero_le _)

end Piece

/-! ## A whole text -/

namespace TokenStream

/-- Cutting stops inside the text, behind the tokens that have been cut. -/
theorem scan_fault {fault : LexicalFault}
    (h : (scan d n before offset rest).ending = .error fault) :
    offset ≤ fault.offset ∧ fault.offset ≤ offset + rest.length ∧
      ∀ t ∈ (scan d n before offset rest).tokens, t.stop ≤ fault.offset := by
  induction n generalizing before offset rest with
  | zero => cases h
  | succ n ih =>
    unfold scan at h ⊢
    split at h
    · next here hhere =>
      obtain rfl := Except.error.inj h
      have hle := Piece.next_fault hhere
      exact ⟨Nat.le_add_right _ _, Nat.add_le_add_left hle _, fun _ ht => by cases ht⟩
    · cases h
    · next k hk =>
      have hle := Piece.next_ignored_le hk
      obtain ⟨hfrom, hto, htokens⟩ := ih h
      rw [List.length_drop] at hto
      exact ⟨by omega, by omega, htokens⟩
    · next x hx =>
      have hle := (Piece.next_covers hx).le
      obtain ⟨hfrom, hto, htokens⟩ := ih h
      rw [List.length_drop] at hto
      exact ⟨by omega, by omega, List.forall_mem_cons.2 ⟨hfrom, htokens⟩⟩

end TokenStream

/-! ## The places of tokens -/

theorem IsTokenOf.start_le_stop {sql : String} (h : IsTokenOf d sql t) : t.start ≤ t.stop := by
  rcases h with h | h
  · exact (TokenStream.standsIn h).nonempty.le
  · obtain ⟨n, rfl⟩ := Cursor.ending_type h
    exact le_rfl

theorem IsTokenOf.stop_le_length {sql : String} (h : IsTokenOf d sql t) :
    t.stop ≤ sql.toList.length := by
  rcases h with h | h
  · exact (TokenStream.standsIn h).stop
  · have hall : (TokenStream.ofText d sql.toList).all =
        .ok ((TokenStream.ofText d sql.toList).tokens ++ [t]) := by
      unfold TokenStream.all
      rw [h]
    have hend := (TokenStream.all_eq hall).1
    rw [h] at hend
    obtain rfl := Except.ok.inj hend
    exact le_rfl

end SqlFront

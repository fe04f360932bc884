import SqlFront.Proofs.Edit.Distinct
import SqlFront.Proofs.Insertion.Synthesis
import SqlFront.Proofs.SortKey.Whole

/-!
# Rows of whole values

A row is read as what its tokens say: its values, the placeholders among them, its place and its
text. In the other direction, what has been read as a row is whole values in parentheses.
-/

set_option autoImplicit false

namespace SqlFront

open SqlFront.Parser SqlFront.Clause SqlFront.Reading

variable {rule : ShardingRule} {table : String} {w v x : Workspace InsertStatement} {t : Token}
  {ts us all more : List Token} {vs : List (List Token)} {n m : ℕ} {es fs : List Edit}

/-! ## Edits that mark rows -/

def Edit.marksRow : Edit → Bool
  | .insertValues _ _ => true
  | _ => false

def rowMarks (es : List Edit) : List Edit := es.filter Edit.marksRow

theorem rowMarks_append : rowMarks (es ++ fs) = rowMarks es ++ rowMarks fs := List.filter_append ..

theorem rowMarks_sources (es : List Edit) : rowMarks (Edit.sources es) = rowMarks es := by
  unfold rowMarks Edit.sources
  rw [List.filter_filter]
  refine List.filter_congr fun e _ => ?_
  cases e <;> rfl

theorem rowMarks_congr (h : Edit.sources es = Edit.sources fs) : rowMarks es = rowMarks fs := by
  rw [← rowMarks_sources, h, rowMarks_sources]

/-! ## Values -/

theorem Whole.token (ht : t.type ≠ .symbol .leftParen) : Whole [t] :=
  .word ht (by simp) (.chain .nil)

abbrev SpellsWholes : List (List Token) → List Token → Prop :=
  Joined (.symbol .comma) fun v ts => Whole v ∧ ts = v

def wholeCounts (vs : List (List Token)) : ℕ := (vs.map wholeCount).sum

def wholeValues (text : List Char) : ℕ → List (List Token) → List Expression
  | _, [] => []
  | n, v :: vs => wholeValue text n v :: wholeValues text (n + wholeCount v) vs

theorem wholeCounts_concat (v : List Token) :
    wholeCounts (vs ++ [v]) = wholeCounts vs + wholeCount v := by simp [wholeCounts]

theorem wholeValues_concat (text : List Char) (n : ℕ) (vs : List (List Token)) (v : List Token) :
    wholeValues text n (vs ++ [v]) =
      wholeValues text n vs ++ [wholeValue text (n + wholeCounts vs) v] := by
  induction vs generalizing n with
  | nil => rfl
  | cons u vs ih =>
    rw [List.cons_append, wholeValues, ih, wholeValues, List.cons_append, Nat.add_assoc]
    rfl

theorem wholeValues_length (text : List Char) (n : ℕ) (vs : List (List Token)) :
    (wholeValues text n vs).length = vs.length := by
  induction vs generalizing n with
  | nil => rfl
  | cons v vs ih => rw [wholeValues, List.length_cons, ih, List.length_cons]

def CountsValues (w : Workspace InsertStatement) (n : ℕ) (v : Workspace InsertStatement) : Prop :=
  ∃ edits, rowMarks edits = [] ∧ v.draft = { w.draft with findings := { w.draft.findings with
    placeholders := w.draft.findings.placeholders + n
    edits := w.draft.findings.edits ++ edits } }

theorem CountsValues.refl (h : v.draft = w.draft) : CountsValues w 0 v := by
  refine ⟨[], rfl, ?_⟩
  rw [h, List.append_nil]
  rfl

theorem CountsValues.trans (h₁ : CountsValues w n v) (h₂ : CountsValues v m x) :
    CountsValues w (n + m) x := by
  obtain ⟨edits, hmarks, hd⟩ := h₁
  obtain ⟨edits', hmarks', hd'⟩ := h₂
  refine ⟨edits ++ edits', by rw [rowMarks_append, hmarks, hmarks', List.append_nil], ?_⟩
  rw [hd', hd]
  simp only [List.append_assoc, Nat.add_assoc]

theorem CountsValues.congr (h : CountsValues w n v) (hx : x.draft = v.draft) :
    CountsValues w n x := by
  obtain ⟨edits, hmarks, hd⟩ := h
  exact ⟨edits, hmarks, hx.trans hd⟩

theorem CountsValues.placeholders (h : CountsValues w n v) :
    v.draft.findings.placeholders = w.draft.findings.placeholders + n := by
  obtain ⟨edits, -, hd⟩ := h
  rw [hd]

theorem CountsValues.marks (h : CountsValues w n v) :
    rowMarks v.draft.findings.edits = rowMarks w.draft.findings.edits := by
  obtain ⟨edits, hmarks, hd⟩ := h
  rw [hd, rowMarks_append, hmarks, List.append_nil]

theorem achieves_wholeValue (hts : Whole ts) (hm : endsOperand (us ++ more) = true)
    (hw : w.cursor.Passes (ts ++ us) more) :
    Achieves w (onFindings expression : Parser InsertStatement Expression) fun e v =>
      e = wholeValue w.cursor.text w.draft.findings.placeholders ts ∧
        v.cursor.Passes us more ∧ v.cursor.text = w.cursor.text ∧
        CountsValues w (wholeCount ts) v := by
  apply settles_onFindings.2
  have hp : (Workspace.mk w.cursor w.draft.findings).cursor.Passes ts (us ++ more) := hw.part
  apply (expression_read hts hm hp).mono
  rintro e v ⟨he, hwalk, hpasses, edits, hd, hedits⟩
  refine ⟨he, ⟨hpasses.faces, fun hnil => ?_⟩, hwalk.text, edits, ?_, ?_⟩
  · rw [hwalk.reaches.ending]
    exact hw.ending hnil
  · rcases hedits with rfl | ⟨_, _, _, rfl, -⟩ <;> rfl
  · exact congrArg (fun f => ({ w.draft with findings := f } : InsertStatement)) hd

structure ValuesTaken (w : Workspace InsertStatement) (vs : List (List Token))
    (es : List Expression) (v : Workspace InsertStatement) : Prop where
  values : es = wholeValues w.cursor.text w.draft.findings.placeholders vs
  text : v.cursor.text = w.cursor.text
  counts : CountsValues w (wholeCounts vs) v

theorem wholeValueRule (w : Workspace InsertStatement) (more : List Token) :
    ItemRule (.symbol .comma) (fun v ts => Whole v ∧ ts = v)
      (onFindings expression : Parser InsertStatement Expression)
      (fun ts => endsOperand ts = true) (ValuesTaken w) (fun _ => False) (fun _ => False)
      more := by
  constructor
  · rintro v _ us before es x ⟨hv, rfl⟩ hus hx ⟨rfl, htext, hcounts⟩
    apply (achieves_wholeValue hv hus hx).mono
    rintro e y ⟨rfl, hy, hytext, hycounts⟩
    refine Or.inl ⟨hy, ?_, hytext.trans htext, ?_⟩
    · rw [wholeValues_concat, htext, hcounts.placeholders]
    · rw [wholeCounts_concat]
      exact hcounts.trans hycounts
  · rintro ts before es x y h ⟨hvalues, htext, hcounts⟩
    exact ⟨hvalues, (Cursor.advance_text h.advance).trans htext, hcounts.congr h.draft⟩
  · intro s _ ts us hs _ _
    exact endsOperand_comma hs
  · exact fun _ h => h.elim

/-! ## Rows -/

structure ValueRow where
  left : Token
  values : List (List Token)
  right : Token

namespace ValueRow

def count (r : ValueRow) : ℕ := wholeCounts r.values

def recorded (text : List Char) (r : ValueRow) : InsertRow :=
  ⟨.values, slice text r.left.start r.right.stop, r.count⟩

def mark (table : String) (r : ValueRow) : Edit := .insertValues r.left.start table

end ValueRow

inductive SpellsValueRow (r : ValueRow) : List Token → Prop
  | intro {us : List Token} : r.left.type = .symbol .leftParen → SpellsWholes r.values us →
      r.right.type = .symbol .rightParen → SpellsValueRow r (r.left :: (us ++ [r.right]))

variable {r : ValueRow}

def Workspace.marked (w : Workspace InsertStatement) (table : String) : Workspace InsertStatement :=
  ⟨w.cursor, setFindings w.draft
    (w.draft.findings.addEdit (.insertValues w.cursor.current.start table))⟩

theorem settles_rowValues (hs : SpellsValueRow r ts) (hw : w.cursor.Faces (ts ++ more)) :
    Settles w (rowOfValues table) (fun p v => v.cursor.Faces more ∧
      p.1 = ⟨r.left.start, r.right.stop, w.draft.findings.placeholders⟩ ∧
      ValuesTaken (w.marked table) r.values p.2 v) fun _ => True := by
  obtain @⟨us, hl, hvs, hr⟩ := hs
  have hmarked : (w.marked table).cursor.Passes (r.left :: us) (r.right :: more) := by
    have hfaces : w.cursor.Faces (r.left :: us ++ r.right :: more) := by simpa using hw
    exact hfaces.passes (by simp)
  unfold rowOfValues
  apply settles_current.2
  apply Achieves.bind (P := fun _ v => v = w.marked table)
  · apply settles_onFindings.2
    exact rfl
  rintro _ _ rfl
  apply settles_draft.2
  apply (achieves_expect hmarked hl).bind
  intro _ v₁ h₁
  have hstart : ValuesTaken (w.marked table) [] [] v₁ :=
    ⟨rfl, Cursor.advance_text h₁.advance, .refl h₁.draft⟩
  have hplaceholders : v₁.draft.findings.placeholders = w.draft.findings.placeholders := by
    rw [h₁.draft]
    rfl
  have hp : v₁.cursor.Passes (us ++ []) (r.right :: more) := by simpa using h₁.passes
  have hend : endsOperand ([] ++ r.right :: more) = true := endsOperand_rightParen hr
  have hvalues := (wholeValueRule (w.marked table) (r.right :: more)).separated hend
    (by simp [hr]) hvs hp hstart
  apply Achieves.bind hvalues
  rintro es v₂ (⟨hv₂, h₂⟩ | h₂)
  · apply settles_of_run _ fun _ => trivial
    intro p v hrun
    obtain ⟨_, v₃, hexpect, hrun⟩ := bind_ok.1 hrun
    obtain ⟨-, c, hc, rfl⟩ := expect_ok.1 hexpect
    obtain ⟨_, _, hcursor, hrun⟩ := bind_ok.1 hrun
    obtain ⟨rfl, rfl⟩ := cursor_ok.1 hcursor
    obtain ⟨rfl, rfl⟩ := pure_ok.1 hrun
    have hright : v₂.cursor.Faces (r.right :: more) := hv₂.faces
    have hstop : c.previousStop = r.right.stop := by
      obtain ⟨_, -, rfl⟩ := Cursor.advance_ok.1 hc
      rw [hright.current]
    have hleft : w.cursor.current = r.left := hmarked.current
    refine ⟨hright.advance hc, ?_, h₂.values, (Cursor.advance_text hc).trans h₂.text, h₂.counts.congr rfl⟩
    rw [hstop, hleft]
    rfl
  · exact h₂.elim

theorem settles_recordedRow {place : RowPlace} {es : List Expression} {s : InsertStatement}
    (hs : shortenColumns (rule.generatedKey? table) es.length w.draft = s) :
    Settles w (recordRow rule table place es) (fun _ v => v.cursor = w.cursor ∧
      (s.columns = [] ∨ es.length = s.columns.length) ∧
      ∃ keys, v.draft = addRow .values (w.cursor.slice place.start place.stop) place.before
        (rowConditions rule s.columns (es.map shardingValue?)) { s with generatedKeys := keys })
      fun _ => True := by
  unfold recordRow
  apply settles_modifyDraft.2
  apply settles_draft.2
  simp only [hs]
  by_cases hlen : (!s.columns.isEmpty && s.columns.length != es.length) = true
  · rw [if_pos hlen]
    exact trivial
  rw [if_neg hlen]
  apply (settles_recordValues fun _ _ _ _ _ => trivial).mono
  rintro _ v ⟨hc, hd, -⟩
  refine ⟨hc, ?_, _, by rw [rowConditions_map]; exact hd⟩
  by_cases hnone : s.columns = []
  · exact Or.inl hnone
  · right
    simp only [Bool.and_eq_true, Bool.not_eq_true', bne_iff_ne, ne_eq, not_and, not_not,
      List.isEmpty_eq_false_iff] at hlen
    exact (hlen hnone).symm

structure RowKept (rule : ShardingRule) (table : String) (r : ValueRow)
    (w v : Workspace InsertStatement) : Prop where
  columns : v.draft.columns =
    (shortenColumns (rule.generatedKey? table) r.values.length w.draft).columns
  width : v.draft.columns = [] ∨ r.values.length = v.draft.columns.length
  marks : rowMarks v.draft.findings.edits =
    rowMarks w.draft.findings.edits ++ [r.mark table]
  rows : v.draft.rows = w.draft.rows ++ [r.recorded w.cursor.text]
  groups : v.draft.findings.conditions.groups = w.draft.findings.conditions.groups ++
    [⟨rowConditions rule v.draft.columns
      ((wholeValues w.cursor.text w.draft.findings.placeholders r.values).map shardingValue?)⟩]
  placeholders : v.draft.findings.placeholders = w.draft.findings.placeholders + r.count
  text : v.cursor.text = w.cursor.text

theorem shortenColumns_marks (key? : Option String) (n : ℕ) (s : InsertStatement) :
    rowMarks (shortenColumns key? n s).findings.edits = rowMarks s.findings.edits :=
  rowMarks_congr (sources_shortenColumns key? n s)

theorem shortenColumns_columns (key? : Option String) (n : ℕ) {s s' : InsertStatement}
    (h : s'.columns = s.columns) :
    (shortenColumns key? n s').columns = (shortenColumns key? n s).columns := by
  cases key? with
  | none => exact h
  | some key =>
    simp only [shortenColumns, removeKeyColumn, h]
    split
    · split <;> simp_all
    · exact h

theorem settles_keptRow (hs : SpellsValueRow r ts) (hw : w.cursor.Faces (ts ++ more)) :
    Settles w (valuesRow rule table) (fun _ v => v.cursor.Faces more ∧ RowKept rule table r w v)
      fun _ => True := by
  have hfront : w.cursor.current = r.left := by
    cases hs
    exact hw.current
  rw [valuesRow_eq]
  apply (settles_rowValues hs hw).bind
  rintro ⟨place, es⟩ v ⟨hv, rfl, rfl, htext, hcounts⟩
  have hlength := wholeValues_length (w.marked table).cursor.text
    (w.marked table).draft.findings.placeholders r.values
  have hmarks := hcounts.marks
  have hplaceholders := hcounts.placeholders
  obtain ⟨edits, -, hd⟩ := hcounts
  have hcolumns := shortenColumns_columns (rule.generatedKey? table) r.values.length
    (show v.draft.columns = w.draft.columns by rw [hd]; rfl)
  have hrest := shortenColumns_rest (rule.generatedKey? table) r.values.length v.draft
  have hshort := shortenColumns_marks (rule.generatedKey? table) r.values.length v.draft
  apply (settles_recordedRow (congrArg (shortenColumns _ · v.draft) hlength)).mono
  rintro _ x ⟨hc, hwidth, keys, hx⟩
  -- From here on only what the shortening keeps is needed, not what it does.
  generalize shortenColumns (rule.generatedKey? table) r.values.length v.draft = s
    at hcolumns hrest hshort hwidth hx
  obtain ⟨-, hrows, hfound⟩ := hrest
  have hxcolumns : x.draft.columns = s.columns := by rw [hx]; rfl
  have hxplaceholders : x.draft.findings.placeholders = s.findings.placeholders := by rw [hx]; rfl
  rw [hlength] at hwidth
  refine ⟨hc ▸ hv, ?_⟩
  constructor
  · rw [hxcolumns, hcolumns]
  · rwa [hxcolumns]
  · have hxmarks : rowMarks x.draft.findings.edits = rowMarks s.findings.edits := by rw [hx]; rfl
    rw [hxmarks, hshort, hmarks, ValueRow.mark, ← hfront]
    exact rowMarks_append
  · have hrow : (⟨.values, v.cursor.slice r.left.start r.right.stop,
        s.findings.placeholders - w.draft.findings.placeholders⟩ : InsertRow) =
        r.recorded w.cursor.text := by
      have hcount : s.findings.placeholders = w.draft.findings.placeholders + r.count :=
        hfound.placeholders.trans hplaceholders
      rw [hcount, Nat.add_sub_cancel_left, Cursor.slice, htext]
      rfl
    have hbefore : s.rows = w.draft.rows := by rw [hrows, hd]; rfl
    rw [← hrow, ← hbefore, hx]
    rfl
  · rw [hxcolumns, hx]
    change s.findings.conditions.groups ++ [_] = _
    rw [hfound.conditions, hd]
    rfl
  · rw [hxplaceholders, hfound.placeholders, hplaceholders]
    rfl
  · rw [hc, htext]
    rfl

/-! ## What has been read -/

theorem value_spelled {e : Expression} (hall : Inner all) (hw : w.cursor.Faces all)
    (h : onFindings expression w = .ok e v) (hv : v.cursor.current.type ≠ .endOfText) :
    ∃ ts t more, all = ts ++ t :: more ∧ Whole ts ∧ v.cursor.Faces (t :: more) := by
  obtain ⟨c, f, hx, rfl⟩ := onFindings_ok.1 h
  have hprogress : Progress (fun _ => False) False False _ _ := follows_expression hx
  obtain ⟨us, -, hus⟩ := hw.reaches hprogress.reaches
  cases us with
  | nil => exact (hv hus.type).elim
  | cons t more =>
    have ht : t.type ≠ .endOfText := hus.current ▸ hv
    obtain ⟨ts, hsplit, hts, -⟩ := expression_whole hall hw hx hus ht
    exact ⟨ts, t, more, hsplit, hts, hus⟩

theorem values_spelled {es : List Expression} (hall : Inner all) (hw : w.cursor.Faces all)
    (h : Separated [.symbol .comma] (onFindings expression) w es v)
    (hv : v.cursor.current.type = .symbol .rightParen) :
    ∃ vs us r more, all = us ++ r :: more ∧ SpellsWholes vs us ∧ r.type = .symbol .rightParen ∧
      v.cursor.Faces (r :: more) := by
  -- By induction on the values that have been read in front of a parenthesis.
  induction h generalizing all with
  | last hx =>
    obtain ⟨ts, t, more, hsplit, hts, hfaces⟩ := value_spelled hall hw hx (by simp [hv])
    exact ⟨[ts], ts, t, more, hsplit, .single ⟨hts, rfl⟩, hfaces.current ▸ hv, hfaces⟩
  | next hx hat hc _ ih =>
    have hcomma := Cursor.isAtAny_iff.1 hat
    rw [List.mem_singleton] at hcomma
    obtain ⟨ts, t, rest, rfl, hts, hfaces⟩ := value_spelled hall hw hx (by simp [hcomma])
    have hrest : Inner rest := hall.suffix ⟨ts ++ [t], by simp⟩
    obtain ⟨vs, us, r, more, rfl, hvs, hr, hfaces'⟩ := ih hrest (hfaces.advance hc) hv
    exact ⟨ts :: vs, ts ++ t :: us, r, more, by simp,
      .cons ⟨hts, rfl⟩ (hfaces.current ▸ hcomma) hvs, hr, hfaces'⟩

theorem row_spelled {u : Unit} (hall : Inner all) (hw : w.cursor.Faces all)
    (h : valuesRow rule table w = .ok u v) :
    ∃ r ts more, all = ts ++ more ∧ SpellsValueRow r ts ∧ v.cursor.Faces more := by
  rw [valuesRow_eq] at h
  obtain ⟨p, x, hread, hrecord⟩ := bind_ok.1 h
  have hcursor := ((settles_recordedRow rfl).property hrecord).1
  obtain ⟨_, _, ht, hread⟩ := bind_ok.1 hread
  obtain ⟨rfl, rfl⟩ := current_ok.1 ht
  obtain ⟨_, w₁, hmark, hread⟩ := bind_ok.1 hread
  obtain ⟨_, f, hf, rfl⟩ := onFindings_ok.1 hmark
  cases modifyDraft_ok.1 hf
  obtain ⟨_, _, hd, hread⟩ := bind_ok.1 hread
  obtain ⟨rfl, rfl⟩ := draft_ok.1 hd
  obtain ⟨_, w₂, hleft, hread⟩ := bind_ok.1 hread
  obtain ⟨hat, c, hc, rfl⟩ := expect_ok.1 hleft
  obtain ⟨es, w₃, hvalues, hread⟩ := bind_ok.1 hread
  obtain ⟨_, w₄, hright, hread⟩ := bind_ok.1 hread
  obtain ⟨hat', c', hc', rfl⟩ := expect_ok.1 hright
  obtain ⟨_, _, hcur, hread⟩ := bind_ok.1 hread
  obtain ⟨rfl, rfl⟩ := cursor_ok.1 hcur
  obtain ⟨rfl, rfl⟩ := pure_ok.1 hread
  rw [Cursor.isAt_iff] at hat hat'
  cases all with
  | nil => simp [hw.type] at hat
  | cons l all =>
    have hl : l.type = .symbol .leftParen := hw.current ▸ hat
    have hrest : Inner all := hall.suffix (List.suffix_cons l all)
    obtain ⟨vs, us, r, more, rfl, hvs, hr, hfaces⟩ :=
      values_spelled hrest (hw.advance hc) (separated_run hvalues) hat'
    refine ⟨⟨l, vs, r⟩, l :: (us ++ [r]), more, by simp, .intro hl hvs hr, ?_⟩
    rw [hcursor]
    exact hfaces.advance hc'

end SqlFront

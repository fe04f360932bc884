import SqlFront.Proofs.Insertion.Agreement
import SqlFront.Proofs.Wording.Behind

/-!
# Columns that are listed and columns of the catalog

An INSERT lists its columns or takes those of the catalog. Where the list has the columns of the
catalog the two are the same insertion, and where the rows leave out the generated key, so is one
that lists the other columns.
-/

set_option autoImplicit false

namespace SqlFront

open SqlFront.Parser SqlFront.Clause SqlFront.Reading

variable {d : Dialect} {rule : ShardingRule} {catalog : Catalog} {name : String}
  {key? : Option String} {names : List String} {c table : Token} {cs : List Token}
  {w v x : Workspace InsertStatement} {s t u : InsertStatement} {ts us more tail : List Token}
  {rows : List (List (List Token))} {q : ℕ}

/-! ## The same insertion -/

theorem SameInsertion.refl (s : InsertStatement) : SameInsertion s s :=
  ⟨⟨rfl, rfl, rfl⟩, rfl, rfl, rfl, rfl⟩

theorem SameInsertion.symm (h : SameInsertion s t) : SameInsertion t s :=
  ⟨⟨h.found.tables.symm, h.found.conditions.symm, h.found.placeholders.symm⟩, h.columns.symm,
    h.keys.symm, h.rows.symm, h.index.symm⟩

theorem SameInsertion.trans (h : SameInsertion s t) (h' : SameInsertion t u) : SameInsertion s u :=
  ⟨⟨h.found.tables.trans h'.found.tables, h.found.conditions.trans h'.found.conditions,
    h.found.placeholders.trans h'.found.placeholders⟩, h.columns.trans h'.columns,
    h.keys.trans h'.keys, h.rows.trans h'.rows, h.index.trans h'.index⟩

theorem SameInsertion.addColumn (h : SameInsertion s t) (key? : Option String) (c : Column) :
    SameInsertion (addColumn key? c s) (addColumn key? c t) := by
  refine ⟨h.found, congrArg (· ++ [c]) h.columns, h.keys, h.rows, ?_⟩
  simp only [Clause.addColumn, h.columns, h.index]

def withColumns (key? : Option String) (table : String) (names : List String)
    (s : InsertStatement) : InsertStatement :=
  names.foldl (fun s name => addColumn key? ⟨name, table⟩ s) s

theorem withColumns_append (key? : Option String) (names more : List String) :
    withColumns key? name (names ++ more) s =
      withColumns key? name more (withColumns key? name names s) := List.foldl_append

theorem SameInsertion.withColumns (h : SameInsertion s t) (key? : Option String)
    (names : List String) :
    SameInsertion (withColumns key? name names s) (withColumns key? name names t) := by
  induction names generalizing s t with
  | nil => exact h
  | cons n names ih => exact ih (h.addColumn key? ⟨n, name⟩)

/-! ## A list of identifiers -/

abbrev SpellsNames : List Token → List Token → Prop :=
  Joined (.symbol .comma) fun c ts => c.type = .literal .identifier ∧ ts = [c]

def identifierNames (cs : List Token) : List String := cs.map fun c => unquoted c.literals

structure NamesRead (key? : Option String) (name : String) (s : InsertStatement)
    (names : List String) (v : Workspace InsertStatement) : Prop where
  same : SameInsertion (withColumns key? name names s) v.draft
  items : itemLists v.draft.findings.edits = itemLists s.findings.edits

theorem achieves_identifier (hc : c.type = .literal .identifier)
    (hm : endsOperand (us ++ more) = true) (hw : w.cursor.Passes (c :: us) more)
    (hI : NamesRead key? name s names w) :
    Achieves w (listedItem key? name) fun _ v => v.cursor.Passes us more ∧
      NamesRead key? name s (names ++ [unquoted c.literals]) v := by
  have hname : c.isName = true := by simp [Token.isName, hc]
  have htitle : (columnExpression none c).columnName? = some (unquoted c.literals) := by
    rw [columnExpression_title none hname (by simp [hc])]
    simp [columnTitle, hc, TokenType.isKeyword, TokenType.keyword?]
  have hread : Achieves w (onFindings expression) fun e v => (e = columnExpression none c ∧
      v.cursor.Passes us more ∧ SameInsertion w.draft v.draft) := by
    apply settles_onFindings.2
    have hpass : (Workspace.mk w.cursor w.draft.findings).cursor.Passes ([c] ++ us) more := hw
    apply (achieves_column (.alone hname) hpass hm).mono
    rintro e v ⟨he, hv, edits, hcount⟩
    refine ⟨he, hv, ⟨?_, rfl, rfl, rfl, rfl⟩⟩
    constructor <;> simp only [setFindings, hcount]
    · rfl
    · simp [Findings.behind]
    · simp [Findings.behind]
  unfold listedItem columnName
  simp only [bind_assoc]
  apply settles_current.2
  apply Achieves.bind (Settles.withRun hread)
  rintro e v ⟨⟨rfl, hv, hsame⟩, hrun⟩
  rw [htitle]
  refine ⟨hv, ?_, ?_⟩
  · rw [withColumns_append]
    exact (hI.same.trans hsame).addColumn key? _
  · exact (value_items hrun).trans hI.items

theorem nameRule (key? : Option String) (name : String) (s : InsertStatement) (more : List Token) :
    ItemRule (.symbol .comma) (fun c ts => c.type = .literal .identifier ∧ ts = [c])
      (listedItem key? name) (fun ts => endsOperand ts = true)
      (fun cs _ => NamesRead key? name s (identifierNames cs)) (fun _ => False) (fun _ => False)
      more := by
  constructor
  · rintro c _ us before _ v ⟨hc, rfl⟩ hm hv hI
    apply (achieves_identifier hc hm hv hI).mono
    rintro _ x ⟨hx, h⟩
    left
    rw [identifierNames, List.map_append]
    exact ⟨hx, h⟩
  · exact fun _ _ _ _ _ h hI => ⟨h.draft ▸ hI.same, h.draft ▸ hI.items⟩
  · intro s _ ts us hs _ _
    exact endsOperand_comma hs
  · exact fun _ h => h.elim

theorem achieves_writtenColumns {l r : Token} (hl : l.type = .symbol .leftParen)
    (hcs : SpellsNames cs ts) (hr : r.type = .symbol .rightParen)
    (htable : w.draft.findings.tables = ⟨[⟨name, none⟩]⟩)
    (hw : w.cursor.Passes (l :: (ts ++ r :: us)) more) :
    Achieves w (columnList rule catalog) fun _ v => v.cursor.Passes us more ∧
      NamesRead (rule.generatedKey? name) name w.draft (identifierNames cs) v ∧
      v.draft.columnListStop = r.start := by
  unfold columnList
  apply settles_insertTable htable
  apply settles_skipIf hw (by simp [hl])
  intro v₁ h₁
  rw [if_pos rfl, writtenColumns_eq]
  have hend : endsOperand (r :: us ++ more) = true := endsOperand_rightParen hr
  have hbegin : NamesRead (rule.generatedKey? name) name w.draft (identifierNames []) v₁ :=
    ⟨h₁.draft ▸ .refl _, congrArg (fun s => itemLists s.findings.edits) h₁.draft⟩
  have hread := (nameRule (rule.generatedKey? name) name w.draft more).separated hend
    (by simp [hr]) hcs h₁.passes hbegin
  apply Achieves.bind (P := fun _ v => v.cursor.Passes (r :: us) more ∧
    NamesRead (rule.generatedKey? name) name w.draft (identifierNames cs) v)
  · apply hread.bind
    rintro _ v₂ h₂
    exact Settles.pure (h₂.resolve_right id)
  · rintro _ v₂ ⟨hv₂, h₂⟩
    apply settles_current.2
    apply settles_modifyDraft.2
    rw [hv₂.current]
    have hexpect := achieves_expect (w := ⟨v₂.cursor, { v₂.draft with
      columnListStop := r.start }⟩) hv₂ hr
    apply hexpect.mono
    intro _ v₃ h₃
    refine ⟨h₃.passes, ⟨?_, ?_⟩, ?_⟩ <;> rw [h₃.draft]
    · exact h₂.same.trans ⟨⟨rfl, rfl, rfl⟩, rfl, rfl, rfl, rfl⟩
    · exact h₂.items

theorem achieves_writtenHead {into l r values : Token} (hinto : into.type = .keyword .INTO)
    (hl : l.type = .symbol .leftParen) (hcs : SpellsNames cs ts)
    (hr : r.type = .symbol .rightParen)
    (hvalues : values.type ∈ keywordTypes (.VALUES :: d.grammar.valuesSynonyms)) {ins : Token}
    (hw : w.cursor.Passes (ins :: into :: table :: l :: (ts ++ r :: values :: us)) tail)
    (hd : w.draft = {}) :
    Achieves w (insertionHead rule catalog) fun _ v => v.cursor.Passes (values :: us) tail ∧
      NamesRead (rule.generatedKey? (unquoted table.literals)) (unquoted table.literals)
        (targetDraft table) (identifierNames cs) v ∧ v.draft.columnListStop = r.start := by
  unfold insertionHead
  apply (achieves_advance hw).bind
  intro _ v₁ h₁
  apply (achieves_intoBeforeList hinto hl h₁.passes (h₁.draft.trans hd)).bind
  rintro _ v₂ ⟨hv₂, hd₂⟩
  apply (achieves_writtenColumns hl hcs hr (targetDraft_read hd₂).tables hv₂).bind
  rintro _ v₃ ⟨hv₃, hnames, hstop⟩
  apply (achieves_listEnd hvalues hv₃).mono
  rintro _ _ rfl
  exact ⟨hv₃, hd₂ ▸ hnames, hstop⟩

/-! ## A list without columns -/

theorem settles_emptyList {l r : Token} {F : Fault → Prop} (hl : l.type = .symbol .leftParen)
    (hr : r.type = .symbol .rightParen) (hend : endsOperand (us ++ more) = true)
    (hcomma : frontType (us ++ more) ≠ .symbol .comma)
    (hparen : frontType (us ++ more) ≠ .symbol .rightParen)
    (hshape : ∀ place cause, F (.malformed place cause))
    (htable : w.draft.findings.tables = ⟨[⟨name, none⟩]⟩)
    (hw : w.cursor.Passes (l :: r :: us) more) :
    Settles w (columnList rule catalog) (fun _ _ => False) F := by
  have hrule : ItemRule (.symbol .comma) (fun (_ : Unit) ts => ts = [r])
      (listedItem (rule.generatedKey? name) name) (fun ts => endsOperand ts = true)
      (fun _ _ _ => True) (fun _ => False) F more := by
    constructor
    · rintro _ _ us _ _ v rfl hm hv -
      have hread : Achieves v (onFindings expression : Parser InsertStatement Expression)
          fun _ x => x.cursor.Passes us more := by
        apply settles_onFindings.2
        apply (achieves_expression (achieves_operand (w := ⟨v.cursor, v.draft.findings⟩) hv
          (by simp [hr]) hm)).mono
        exact fun _ _ h => h.2.1
      unfold listedItem columnName
      simp only [bind_assoc]
      apply settles_current.2
      apply hread.bind
      intro e x hx
      cases e.columnName? with
      | some n => exact Or.inl ⟨hx, trivial⟩
      | none => exact hshape _ _
    · exact fun _ _ _ _ _ _ _ => trivial
    · intro s _ ts us hs _ _
      exact endsOperand_comma hs
    · exact fun _ h => h.elim
  unfold columnList
  apply settles_insertTable htable
  apply settles_skipIf hw (by simp [hl])
  intro v h
  rw [if_pos rfl, writtenColumns_eq]
  have hv : v.cursor.Passes ([r] ++ us) more := h.passes
  apply Settles.bind (P := fun _ x => x.cursor.Passes us more)
  · apply (hrule.separated hend hcomma (.single (x := ()) rfl) hv trivial).bind
    intro _ x hx
    exact Settles.pure (hx.resolve_right id).1
  · intro _ x hx
    apply settles_current.2
    apply settles_modifyDraft.2
    have hat : x.cursor.isAt (.symbol .rightParen) = false := by
      rw [hx.isAt, beq_eq_false_iff_ne]
      exact hparen
    exact settles_missing (w := ⟨x.cursor, _⟩) hat hshape

end SqlFront

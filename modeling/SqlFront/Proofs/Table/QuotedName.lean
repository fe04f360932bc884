import SqlFront.Proofs.Lexeme.BareWord
import SqlFront.Proofs.Lexeme.Quotation
import SqlFront.Proofs.Lexeme.Written
import SqlFront.Proofs.SortKey.Kept
import SqlFront.Proofs.Table.OneTable

/-!
# Names in quotes

A name is put in quotes of its dialect by doubling the closing quotes that it has. It is recorded,
for a table or a column, without any quote or bracket, also those that are its own. So a name is
recorded as itself exactly if it has none of them, and names that differ in nothing else are
recorded as one.
-/

set_option autoImplicit false

namespace SqlFront

open SqlFront.Parser SqlFront.Clause SqlFront.Quoted SqlFront.Reading

variable {d : Dialect} {rule : ShardingRule} {sql sql₁ sql₂ s s₁ s₂ : String} {o q : Char}
  {a text rest : List Char} {last front : Option Char} {k : Keyword} {n place : ℕ} {c : Cursor}
  {t dot owner : Token} {ts before before₁ before₂ us : List Token} {f : Findings}

/-! ## Names without quotes -/

def plainCharacters (s : String) : List Char := s.toList.filter fun c => !isQuote c

theorem unquoted_eq_iff : unquoted s₁ = unquoted s₂ ↔ plainCharacters s₁ = plainCharacters s₂ :=
  String.ofList_inj

namespace Quoted

def inQuotes (o : Char) (s : String) : List Char :=
  o :: (doubled (terminator o) s.toList ++ [terminator o])

theorem filter_doubled {p : Char → Bool} {cs : List Char} (hq : p q = false) :
    (doubled q cs).filter p = cs.filter p := by
  induction cs with
  | nil => rfl
  | cons c cs ih =>
    rw [doubled]
    split
    · next hc => simp [hc, hq, ih]
    · rw [List.filter_cons, List.filter_cons, ih]

theorem isQuote_opening (ho : o ∈ ['\x60', '"', '[']) :
    isQuote o = true ∧ isQuote (terminator o) = true := by
  simp only [List.mem_cons, List.not_mem_nil, or_false] at ho
  rcases ho with rfl | rfl | rfl <;> decide

theorem unquoted_inQuotes (ho : o ∈ ['\x60', '"', '[']) :
    unquoted (String.ofList (inQuotes o s)) = unquoted s := by
  obtain ⟨hopening, hclosing⟩ := isQuote_opening ho
  have hdoubled : (doubled (terminator o) s.toList).filter (fun c => !isQuote c) =
      s.toList.filter fun c => !isQuote c := filter_doubled (by simp [hclosing])
  unfold unquoted inQuotes
  rw [String.toList_ofList, List.filter_cons, List.filter_append, hdoubled]
  simp [hopening, hclosing]

theorem goesOn_inQuotes (ho : o ∈ ['\x60', '"', '[']) (hd : Piece.beginsWord d.lexis o = true)
    (hrest : rest.head? ≠ some (terminator o))
    (h : PiecesTo d (inQuotes o s ++ rest) last place none 0 text ts) :
    TokenStream.GoesOn d text ts place
      ⟨.literal .identifier, String.ofList (inQuotes o s), (inQuotes o s).length⟩
      (some (terminator o)) rest := by
  have hfront : inQuotes o s ++ rest =
      o :: (doubled (terminator o) s.toList ++ terminator o :: rest) := by simp [inQuotes]
  rw [hfront] at h
  have hgoes := h.quoted (.identifier ho) (by simp [hd]) (terminated_doubled hrest)
  simpa [quotation, inQuotes] using hgoes

/-- Behind these tokens the text goes on with the name in quotes that the dialect takes for those of
an identifier. -/
inductive NameBehind (d : Dialect) (sql : String) (before : List Token) (s : String) : Prop
  | intro {o : Char} {rest : List Char} {last : Option Char} {place : ℕ} :
      o ∈ ['\x60', '"', '['] → Piece.beginsWord d.lexis o = true →
      PiecesTo d (inQuotes o s ++ rest) last place none 0 sql.toList before →
      rest.head? ≠ some (terminator o) → NameBehind d sql before s

theorem NameBehind.token (h : NameBehind d sql before s) : ∃ t behind,
    (TokenStream.ofText d sql.toList).tokens = before ++ t :: behind ∧
      t.type = .literal .identifier ∧ unquoted t.literals = unquoted s := by
  obtain @⟨o, rest, last, place, ho, hd, hpieces, hrest⟩ := h
  obtain ⟨n, -, htext⟩ := goesOn_inQuotes ho hd hrest hpieces
  exact ⟨_, _, congrArg TokenStream.tokens htext, rfl, unquoted_inQuotes ho⟩

end Quoted

/-! ## What a token is recorded as -/

namespace Token

/-- Wherever a reader stands in front of the token, it takes it for this name: as a table with an
alias and hints behind it, as a table alone, as the table of a privilege, as a column and as a column
behind an owner. -/
structure RecordedAs (t : Token) (name : String) : Prop where
  table : ∀ {c as hs us}, c.Passes (t :: (as ++ hs)) us → SpellsAlias as → SpellsHints hs →
    (hs ≠ [] → c.dialect.grammar.indexHints = true) → frontType us ∉ factorStarts →
    ∀ rule single f, ∃ v, tableFactor rule single ⟨c, f⟩ = .ok () v ∧ v.draft.tables =
      if single || rule.containsTable name || rule.hasDefault then
        f.tables.add ⟨name, aliasName as⟩ else f.tables
  bareTable : ∀ {c us}, c.Passes [t] us → frontType us ≠ .symbol .dot →
    ∀ f, ∃ v, bareTable ⟨c, f⟩ = .ok () v ∧ v.draft.tables = f.tables.add ⟨name, none⟩
  privilege : ∀ rule w, ∃ v, privilegeTable rule t w = .ok () v ∧ v.draft.tables =
    if rule.containsTable name || rule.hasDefault then w.draft.tables.add ⟨name, none⟩
    else w.draft.tables
  column : ∀ {c us}, c.Passes [t] us → endsOperand us = true →
    ∀ f, ∃ e v, expression ⟨c, f⟩ = .ok e v ∧ e.columnName? = some name ∧
      ∀ table, f.tables.singleName? = some table → findColumn? v.draft e = some ⟨name, table⟩
  member : ∀ {c owner dot us}, c.Passes [owner, dot, t] us → owner.type ≠ .symbol .leftParen →
    dot.type = .symbol .dot → endsOperand us = true →
    ∀ f, ∃ e v, expression ⟨c, f⟩ = .ok e v ∧ e.columnName? = some name ∧
      ∀ table, f.tables.find? (unquoted owner.literals) = some table →
        findColumn? v.draft e = some ⟨name, table.name⟩

end Token

theorem bareTable_recorded (hw : c.Passes [t] us) (hdot : frontType us ≠ .symbol .dot) :
    ∃ v, bareTable ⟨c, f⟩ = .ok () v ∧
      v.draft.tables = f.tables.add ⟨unquoted t.literals, none⟩ := by
  have hrun : Achieves ⟨c, f⟩ bareTable fun _ v =>
      v.draft.tables = f.tables.add ⟨unquoted t.literals, none⟩ := by
    unfold bareTable
    apply (achieves_tableToken (w := ⟨c, f⟩) hw hdot).bind
    rintro _ v ⟨rfl, hv⟩
    show v.draft.tables.add _ = _
    rw [hv.draft]
  obtain ⟨_, v, hv, htables⟩ := hrun.run
  exact ⟨v, hv, htables⟩

theorem privilegeTable_recorded {w : Workspace Findings} : ∃ v, privilegeTable rule t w = .ok () v ∧
    v.draft.tables =
      if rule.containsTable (unquoted t.literals) || rule.hasDefault then
        w.draft.tables.add ⟨unquoted t.literals, none⟩
      else w.draft.tables := by
  by_cases hkept : (rule.containsTable (unquoted t.literals) || rule.hasDefault) = true
  · refine ⟨_, congrFun (if_pos hkept) w, ?_⟩
    rw [if_pos hkept]
    rfl
  · refine ⟨_, congrFun (if_neg hkept) w, ?_⟩
    rw [if_neg hkept]

theorem column_recorded (ht : t.type = .literal .identifier) (hw : c.Passes [t] us)
    (hus : endsOperand us = true) : ∃ e v, expression ⟨c, f⟩ = .ok e v ∧
      e.columnName? = some (unquoted t.literals) ∧
      ∀ table, f.tables.singleName? = some table →
        findColumn? v.draft e = some ⟨unquoted t.literals, table⟩ := by
  have hwhole : Whole [t] := .word (by simp [ht]) (by simp) (.chain .nil)
  obtain ⟨_, v, hrun, rfl, hread⟩ := (expression_read (w := ⟨c, f⟩) hwhole hus hw).run
  obtain ⟨_, hdraft, -⟩ := hread.draft
  have hvalue : wholeValue c.text f.placeholders [t] = .identifier (unquoted t.literals) := by
    simp [wholeValue, operandValue, literal, ht]
  refine ⟨_, v, hrun, ?_, fun table htable => ?_⟩
  · rw [hvalue, Expression.columnName?, Comparison.unquoted_unquoted]
  · rw [hvalue, hdraft, findColumn?, htable, Comparison.unquoted_unquoted]
    rfl

theorem member_recorded (hw : c.Passes [owner, dot, t] us)
    (howner : owner.type ≠ .symbol .leftParen) (hdot : dot.type = .symbol .dot)
    (hus : endsOperand us = true) : ∃ e v, expression ⟨c, f⟩ = .ok e v ∧
      e.columnName? = some (unquoted t.literals) ∧
      ∀ table, f.tables.find? (unquoted owner.literals) = some table →
        findColumn? v.draft e = some ⟨unquoted t.literals, table.name⟩ := by
  have hwhole : Whole [owner, dot, t] := .member howner hdot (.chain .nil)
  obtain ⟨_, v, hrun, rfl, hread⟩ := (expression_read (w := ⟨c, f⟩) hwhole hus hw).run
  obtain ⟨_, hdraft, -⟩ := hread.draft
  have hvalue : wholeValue c.text f.placeholders [owner, dot, t] = _ :=
    wholeValue_member howner hdot
  refine ⟨_, v, hrun, ?_, fun table htable => ?_⟩
  · rw [hvalue]
    rfl
  · rw [hvalue, hdraft, findColumn?, htable]
    rfl

/-- An identifier is recorded without its quotes. -/
theorem Token.recordedAs_unquoted (ht : t.type = .literal .identifier) :
    t.RecordedAs (unquoted t.literals) where
  table := by
    intro c as hs us hw has hhs hd hus rule single f
    have hp : c.Passes (t :: (as ++ (hs ++ []))) us := by simpa using hw
    have hus' : frontType ([] ++ us) ∉ factorStarts := hus
    have hfactor : Achieves ⟨c, f⟩ (tableFactor rule single) fun _ v =>
        v.cursor.Passes [] us ∧ v.draft.tables = _ :=
      achieves_tableFactor_tables has hhs hd hus' hp
    obtain ⟨_, v, hrun, -, htables⟩ := hfactor.run
    exact ⟨v, hrun, htables⟩
  bareTable := fun hw hdot _ => bareTable_recorded hw hdot
  privilege := fun _ _ => privilegeTable_recorded
  column := fun hw hus _ => column_recorded ht hw hus
  member := fun hw howner hdot hus _ => member_recorded hw howner hdot hus

/-! ## A table that rows are taken out of -/

theorem Keyword.isBare_spelling (k : Keyword) : IsBare k.spelling.toList := by
  have hall : ∀ k ∈ all, k.spelling.toList.all Character.isWord = true ∧
      Character.isLetter (charAt k.spelling.toList 0) = true ∧ 1 < k.spelling.toList.length := by
    decide +kernel
  obtain ⟨hword, hletter, hlong⟩ := hall k k.mem_all
  exact ⟨hword, hletter, hlong⟩

theorem Piece.next_keyword (hk : k ∈ d.vocabulary) (hby : k ≠ .ORDER ∧ k ≠ .GROUP)
    (hrest : Character.isWord (charAt rest 0) = false) :
    next d front (k.spelling.toList ++ rest) =
      .ok (.lexeme ⟨.keyword k, k.spelling, k.spelling.length⟩) := by
  have hnames : d.Names k k.spelling rest :=
    ⟨sameName_refl _, List.mem_append.1 hk, fun h => (h.elim hby.1 hby.2).elim⟩
  rw [next_bare k.isBare_spelling hrest, String.ofList_toList,
    Lexeme.wordType_eq_keyword_iff.2 hnames, String.length_toList]

/-- A keyword with a space behind it. -/
theorem PiecesTo.keyword (hk : k ∈ d.vocabulary) (hby : k ≠ .ORDER ∧ k ≠ .GROUP)
    (hrest : Character.isBlank (charAt rest 0) = false)
    (h : PiecesTo d a last place (some ' ') (n + k.spelling.length + 1) rest ts) :
    PiecesTo d a last place front n (k.spelling.toList ++ ' ' :: rest)
      (⟨.keyword k, k.spelling, n, n + k.spelling.length⟩ :: ts) := by
  have hspace : PiecesTo d a last place k.spelling.toList.getLast? (n + k.spelling.length)
      (' ' :: rest) ts := .ignored (Piece.next_space hrest) h
  refine .lexeme (Piece.next_keyword hk hby rfl) ?_
  rwa [← String.length_toList, List.take_left, List.drop_left]

def deletionOf (o : Char) (name : String) : String :=
  String.ofList ("DELETE FROM ".toList ++ inQuotes o name)

theorem piecesTo_deletionOf (d : Dialect) (s : String) (ho : o ∈ ['\x60', '"', '[']) : ∃ place u f,
    u.type = .keyword .DELETE ∧ f.type = .keyword .FROM ∧
      PiecesTo d (inQuotes o s) (some ' ') place none 0 (deletionOf o s).toList [u, f] := by
  have hdelete : Keyword.DELETE ∈ d.vocabulary := List.mem_append_left _ (by decide)
  have hfrom : Keyword.FROM ∈ d.vocabulary := List.mem_append_left _ (by decide)
  have hopening : Character.isBlank (charAt (inQuotes o s) 0) = false := by
    show Character.isBlank o = false
    simp only [List.mem_cons, List.not_mem_nil, or_false] at ho
    rcases ho with rfl | rfl | rfl <;> decide
  have hfront : "DELETE FROM ".toList =
      Keyword.DELETE.spelling.toList ++ ' ' :: (Keyword.FROM.spelling.toList ++ [' ']) := by
    decide +kernel
  have htext : (deletionOf o s).toList = Keyword.DELETE.spelling.toList ++
      ' ' :: (Keyword.FROM.spelling.toList ++ ' ' :: inQuotes o s) := by
    refine String.toList_ofList.trans ?_
    rw [hfront, List.append_assoc, List.cons_append, List.append_assoc]
    rfl
  rw [htext]
  exact ⟨_, _, _, rfl, rfl, .keyword hdelete (by decide) rfl
    (.keyword hfrom (by decide) hopening .nil)⟩

theorem tokens_deletionOf (d : Dialect) (s : String) (ho : o ∈ ['\x60', '"', '['])
    (hd : Piece.beginsWord d.lexis o = true) : ∃ u f t,
    u.type = .keyword .DELETE ∧ f.type = .keyword .FROM ∧ t.type = .literal .identifier ∧
      unquoted t.literals = unquoted s ∧ ∃ e,
      TokenStream.ofText d (deletionOf o s).toList = ⟨[u, f, t], .ok e⟩ := by
  obtain ⟨place, u, f, hu, hf, hpieces⟩ := piecesTo_deletionOf d s ho
  have hpieces' : PiecesTo d (inQuotes o s ++ []) (some ' ') place none 0
      (deletionOf o s).toList [u, f] := by rwa [List.append_nil]
  obtain ⟨n, -, htext⟩ := goesOn_inQuotes ho hd (by simp) hpieces'
  have hnone : ∀ last place, TokenStream.scan d n last place [] =
      ⟨[], .ok (Token.atEnd place)⟩ := by
    intro last place
    cases n with
    | zero => rfl
    | succ n => rw [TokenStream.scan, Piece.next_nil]
  rw [hnone] at htext
  exact ⟨u, f, Lexeme.place ⟨_, _, _⟩ place, hu, hf, rfl, unquoted_inQuotes ho, _, htext⟩

theorem achieves_deletion {u from_ : Token} (hfrom : from_.type = .keyword .FROM)
    (ht : t.type = .literal .identifier) (hw : c.Passes [u, from_, t] []) :
    Achieves ⟨c, { kind := .dml }⟩ (deletion rule) fun _ v =>
      v.draft.tables = ⟨[⟨unquoted t.literals, none⟩]⟩ := by
  have hmodifiers : ∀ d : Dialect, TokenType.keyword .FROM ∈ keywordTypes d.grammar.deleteModifiers ∧
      EndsReferences d [] := by
    intro d
    cases d <;> exact ⟨by decide, ⟨by decide, by decide⟩, by decide⟩
  unfold deletion
  apply (achieves_advance hw).bind
  intro _ v hv
  apply settles_grammar.2
  have hskip : ∀ x ∈ [from_], x.type ∈ keywordTypes v.cursor.dialect.grammar.deleteModifiers := by
    intro x hx
    rw [List.mem_singleton.1 hx, hfrom]
    exact (hmodifiers _).1
  have hname : frontType ([t] ++ []) ∉ keywordTypes v.cursor.dialect.grammar.deleteModifiers := by
    rw [List.append_nil, frontType_cons, ht]
    simp [keywordTypes]
  apply (achieves_skipAll hskip hname hv.passes).bind
  rintro _ x ⟨hx, hxd⟩
  have hempty : x.draft.tables = .empty := by rw [hxd, hv.draft]
  have hend : EndsReferences x.cursor.dialect ([] ++ []) := (hmodifiers _).2
  apply (achieves_bareReference hend hempty hx).bind
  rintro _ y ⟨hy, edits, hyd⟩
  unfold whereClause
  apply settles_noSkip hy (by decide)
  exact Settles.pure (by rw [hyd])

/-- The statement has the table, under the name without its quotes. -/
theorem parse_deletionOf (rule : ShardingRule) (catalog : Catalog) (s : String)
    (ho : o ∈ ['\x60', '"', '[']) (hd : Piece.beginsWord d.lexis o = true) :
    ∃ x, parse d rule catalog (deletionOf o s) = .ok x ∧
      x.findings.tables = ⟨[⟨unquoted s, none⟩]⟩ := by
  obtain ⟨u, from_, t, hu, hfrom, ht, hname, e, htext⟩ :=
    tokens_deletionOf d s ho hd
  have htokens : (TokenStream.ofText d (deletionOf o s).toList).tokens = u :: [from_, t] ++ [] := by
    rw [htext]
    rfl
  have hread : ∀ c, (Cursor.ofText d (deletionOf o s)).advance = .ok c →
      c.Passes [u, from_, t] [] → Settles ⟨c, ()⟩ (statement rule catalog)
        (fun x _ => x.findings.tables = ⟨[⟨unquoted s, none⟩]⟩) fun _ => False := by
    intro c _ hc
    rw [← hname]
    apply (settles_deleteWord (hc.current ▸ hu) (achieves_deletion hfrom ht hc)).mono
    rintro _ _ ⟨v, hv, rfl⟩
    exact hv
  rcases parse_statement htokens (fun _ => ⟨e, by rw [htext]⟩) hread with ⟨x, hx, hparse⟩ | ⟨_, h, -⟩
  · refine ⟨_, hparse, ?_⟩
    rw [← hx]
    cases x <;> rfl
  · exact h.elim

/-! ## Names that are told apart -/

/-- Where two texts have names in quotes of the dialect, each is a token that is recorded as the name
without its quotes, and so are the tables that are named so. The two are recorded as one exactly if
they have the same other characters, and they are told apart and recorded as themselves exactly if
neither has a quote. -/
theorem quoted_names_kept_iff (h₁ : NameBehind d sql₁ before₁ s₁)
    (h₂ : NameBehind d sql₂ before₂ s₂) :
    ∃ t₁ t₂ behind₁ behind₂,
      (TokenStream.ofText d sql₁.toList).tokens = before₁ ++ t₁ :: behind₁ ∧
      (TokenStream.ofText d sql₂.toList).tokens = before₂ ++ t₂ :: behind₂ ∧
      t₁.RecordedAs (unquoted s₁) ∧ t₂.RecordedAs (unquoted s₂) ∧
      (∀ o ∈ ['\x60', '"', '['], Piece.beginsWord d.lexis o = true → ∀ rule catalog, ∃ x₁ x₂,
        parse d rule catalog (deletionOf o s₁) = .ok x₁ ∧
        parse d rule catalog (deletionOf o s₂) = .ok x₂ ∧
        x₁.findings.tables = ⟨[⟨unquoted s₁, none⟩]⟩ ∧
        x₂.findings.tables = ⟨[⟨unquoted s₂, none⟩]⟩) ∧
      (unquoted s₁ = unquoted s₂ ↔ plainCharacters s₁ = plainCharacters s₂) ∧
      (((s₁ ≠ s₂ → unquoted s₁ ≠ unquoted s₂) ∧ unquoted s₁ = s₁ ∧ unquoted s₂ = s₂) ↔
        ∀ c ∈ s₁.toList ++ s₂.toList, isQuote c = false) := by
  obtain ⟨t₁, behind₁, htokens₁, ht₁, hname₁⟩ := h₁.token
  obtain ⟨t₂, behind₂, htokens₂, ht₂, hname₂⟩ := h₂.token
  have hparse : ∀ o ∈ ['\x60', '"', '['], Piece.beginsWord d.lexis o = true → ∀ rule catalog,
      ∃ x₁ x₂, parse d rule catalog (deletionOf o s₁) = .ok x₁ ∧
        parse d rule catalog (deletionOf o s₂) = .ok x₂ ∧
        x₁.findings.tables = ⟨[⟨unquoted s₁, none⟩]⟩ ∧
        x₂.findings.tables = ⟨[⟨unquoted s₂, none⟩]⟩ := by
    intro o ho hd rule catalog
    obtain ⟨x₁, hx₁, htables₁⟩ := parse_deletionOf rule catalog s₁ ho hd
    obtain ⟨x₂, hx₂, htables₂⟩ := parse_deletionOf rule catalog s₂ ho hd
    exact ⟨x₁, x₂, hx₁, hx₂, htables₁, htables₂⟩
  refine ⟨t₁, t₂, behind₁, behind₂, htokens₁, htokens₂, hname₁ ▸ Token.recordedAs_unquoted ht₁,
    hname₂ ▸ Token.recordedAs_unquoted ht₂, hparse, unquoted_eq_iff, ?_⟩
  rw [List.forall_mem_append, ← unquoted_eq_self_iff, ← unquoted_eq_self_iff]
  constructor
  · exact And.right
  · rintro ⟨h₁, h₂⟩
    exact ⟨fun hne => by rwa [h₁, h₂], h₁, h₂⟩

/-- A name with the quote in it and the name that it leaves are both recorded as the second one. -/
theorem quoted_names_kept_iff_doubled : ∃ t₁ t₂ behind₁ behind₂,
    (TokenStream.ofText .mysql "DELETE \x60a\x60\x60b\x60".toList).tokens =
      [⟨.keyword .DELETE, "DELETE", 0, 6⟩] ++ t₁ :: behind₁ ∧
    (TokenStream.ofText .mysql "DELETE \x60ab\x60 WHERE".toList).tokens =
      [⟨.keyword .DELETE, "DELETE", 0, 6⟩] ++ t₂ :: behind₂ ∧
    t₁.RecordedAs "ab" ∧ t₂.RecordedAs "ab" := by
  have ho : '\x60' ∈ ['\x60', '"', '['] := List.mem_cons_self
  have hd : Piece.beginsWord Dialect.mysql.lexis '\x60' = true := by decide
  have hdoubled : NameBehind .mysql "DELETE \x60a\x60\x60b\x60" _ "a\x60b" :=
    @NameBehind.intro _ _ _ _ _ [] _ _ ho hd
      (.lexeme (x := ⟨.keyword .DELETE, "DELETE", 6⟩) (by decide +kernel)
        (.ignored (k := 1) (by decide +kernel) .nil)) (by decide)
  have hplain : NameBehind .mysql "DELETE \x60ab\x60 WHERE" _ "ab" :=
    @NameBehind.intro _ _ _ _ _ " WHERE".toList _ _ ho hd
      (.lexeme (x := ⟨.keyword .DELETE, "DELETE", 6⟩) (by decide +kernel)
        (.ignored (k := 1) (by decide +kernel) .nil)) (by decide)
  obtain ⟨t₁, t₂, behind₁, behind₂, htokens₁, htokens₂, hrecorded₁, hrecorded₂, -⟩ :=
    quoted_names_kept_iff hdoubled hplain
  have hname₁ : unquoted "a\x60b" = "ab" := by decide +kernel
  have hname₂ : unquoted "ab" = "ab" := by decide +kernel
  rw [hname₁] at hrecorded₁
  rw [hname₂] at hrecorded₂
  exact ⟨t₁, t₂, behind₁, behind₂, htokens₁, htokens₂, hrecorded₁, hrecorded₂⟩

/-- The quote that a name has is lost, so that two tables have one name. -/
theorem quoted_names_conflated : ∃ x y : Statement,
    deletionOf '\x60' "a\x60b" = "DELETE FROM \x60a\x60\x60b\x60" ∧
    parse .mysql ⟨[], none⟩ ⟨[]⟩ (deletionOf '\x60' "a\x60b") = .ok x ∧
    parse .mysql ⟨[], none⟩ ⟨[]⟩ (deletionOf '\x60' "ab") = .ok y ∧
    x.findings.tables = ⟨[⟨"ab", none⟩]⟩ ∧ y.findings.tables = x.findings.tables := by
  have ho : '\x60' ∈ ['\x60', '"', '['] := List.mem_cons_self
  have hd : Piece.beginsWord Dialect.mysql.lexis '\x60' = true := by decide
  obtain ⟨x, hx, htables⟩ := parse_deletionOf ⟨[], none⟩ ⟨[]⟩ "a\x60b" ho hd
  obtain ⟨y, hy, htables'⟩ := parse_deletionOf ⟨[], none⟩ ⟨[]⟩ "ab" ho hd
  have hname : unquoted "a\x60b" = "ab" := by decide +kernel
  have hname' : unquoted "ab" = "ab" := by decide +kernel
  rw [hname] at htables
  rw [hname'] at htables'
  exact ⟨x, y, by decide +kernel, hx, hy, htables, htables'.trans htables.symm⟩

end SqlFront

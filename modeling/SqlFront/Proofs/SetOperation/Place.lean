import Mathlib.Computability.Language
import SqlFront.Clause.SelectList
import SqlFront.Clause.TableReference
import SqlFront.Clause.Where
import SqlFront.Proofs.Parser.Carrying

/-!
# The place of a set operation

A query can end in front of a set operation. It cannot inside parentheses or CASE, behind a word or
a symbol that calls for a name or an operand, or before it has a select list; there the word is
passed like any other. The readers are followed up to a word that stands elsewhere.
-/

set_option autoImplicit false

namespace SqlFront

open Computability SqlFront.Parser SqlFront.Clause

def openCount (opening closing : TokenType) (ts : List TokenType) : ℕ :=
  ts.foldl (fun n t => if t = opening then n + 1 else if t = closing then n - 1 else n) 0

def openGroups : List TokenType → ℕ := openCount (.symbol .leftParen) (.symbol .rightParen)

def openCases : List TokenType → ℕ := openCount (.keyword .CASE) (.keyword .END)

def callers : List TokenType :=
  .symbol .comma :: .symbol .equal :: operators ++ joinComparisons ++ otherComparisons ++
    patternWords ++ keywordTypes ([.AS, .FROM, .WHERE, .ON, .AND, .BETWEEN, .ESCAPE, .IS, .NOT, .BY,
      .FOR] ++ joinWords)

def ownCallers (d : Dialect) : List TokenType :=
  keywordTypes (d.grammar.joins ++ d.grammar.beforeSelectItem)

def oneOf (ts : List TokenType) : Language TokenType := {x | ∃ t ∈ ts, x = [t]}

def topNumber : Language TokenType := oneOf [.keyword .ALL, .symbol .question, .literal .int]

def topForm : Language TokenType :=
  oneOf [.keyword .TOP] *
    (topNumber + oneOf [.symbol .leftParen] * topNumber * oneOf [.symbol .rightParen]) *
    (1 + oneOf [.keyword .PERCENT]) * (1 + oneOf [.keyword .WITH] * oneOf [.keyword .TIES])

def beforeList (d : Dialect) : Language TokenType :=
  oneOf [.keyword .SELECT] * (1 + oneOf [.keyword .ALL]) *
    (oneOf (keywordTypes d.grammar.selectOptions))∗ *
    (1 + if d.grammar.rowLimit = .top then topForm else 0)

def Over (ts : List TokenType) (L : Language TokenType) : Prop := ∀ x ∈ L, ∀ t ∈ x, t ∈ ts

section

variable {d : Dialect} {ts us : List TokenType} {L L' : Language TokenType}

theorem Over.one : Over ts 1 := by
  intro x hx t ht
  rw [(Language.mem_one x).1 hx] at ht
  cases ht

theorem Over.oneOf (h : us ⊆ ts) : Over ts (oneOf us) := by
  rintro _ ⟨u, hu, rfl⟩ t ht
  exact List.mem_singleton.1 ht ▸ h hu

theorem Over.add (h : Over ts L) (h' : Over ts L') : Over ts (L + L') :=
  fun x hx => hx.elim (h x) (h' x)

theorem Over.mul (h : Over ts L) (h' : Over ts L') : Over ts (L * L') := by
  rintro _ ⟨x, hx, y, hy, rfl⟩ t ht
  exact (List.mem_append.1 ht).elim (h x hx t) (h' y hy t)

theorem Over.kstar (h : Over ts L) : Over ts L∗ := by
  rintro _ ⟨xs, rfl, hxs⟩ t ht
  obtain ⟨x, hx, ht⟩ := List.mem_flatten.1 ht
  exact h x (hxs x hx) t ht

def topTypes : List TokenType :=
  [.keyword .TOP, .keyword .ALL, .symbol .question, .literal .int, .symbol .leftParen,
    .symbol .rightParen, .keyword .PERCENT, .keyword .WITH, .keyword .TIES]

theorem over_topForm : Over topTypes topForm := by
  have hletter : ∀ t ∈ topTypes, Over topTypes (oneOf [t]) :=
    fun t ht => .oneOf (by simpa using ht)
  have hnumber : Over topTypes topNumber := .oneOf (by decide)
  refine .mul (.mul (.mul (hletter _ (by decide)) (.add hnumber ?_)) ?_) (.add .one ?_)
  · exact .mul (.mul (hletter _ (by decide)) hnumber) (hletter _ (by decide))
  · exact .add .one (hletter _ (by decide))
  · exact .mul (hletter _ (by decide)) (hletter _ (by decide))

def beforeListTypes (d : Dialect) : List TokenType :=
  keywordTypes (.SELECT :: .ALL :: d.grammar.selectOptions) ++
    if d.grammar.rowLimit = .top then topTypes else []

theorem over_beforeList (d : Dialect) : Over (beforeListTypes d) (beforeList d) := by
  have hwords : ∀ us, us ⊆ keywordTypes (.SELECT :: .ALL :: d.grammar.selectOptions) →
      Over (beforeListTypes d) (oneOf us) := fun us hus =>
    .oneOf fun u hu => List.mem_append_left _ (hus hu)
  refine .mul (.mul (.mul (hwords _ ?_) (.add .one (hwords _ ?_))) (.kstar (hwords _ ?_)))
    (.add .one ?_)
  · simp [keywordTypes]
  · simp [keywordTypes]
  · exact fun u hu => List.mem_cons_of_mem _ (List.mem_cons_of_mem _ hu)
  · split
    · next htop =>
      intro x hx t ht
      rw [beforeListTypes, if_pos htop]
      exact List.mem_append_right _ (over_topForm x hx t ht)
    · exact fun x hx => hx.elim

theorem beforeList_ne_nil {x : List TokenType} (hx : x ∈ beforeList d) : x ≠ [] := by
  unfold beforeList at hx
  rw [mul_assoc, mul_assoc] at hx
  obtain ⟨_, ⟨t, -, rfl⟩, y, -, rfl⟩ := hx
  simp

end

structure Marked where
  dialect : Dialect
  before : List Token
  token : Token
  behind : List Token

/-- The token is a set operation outside of parentheses, in a place where a query can end. -/
structure Marked.Exposed (m : Marked) : Prop where
  operation : m.token.type ∈ keywordTypes m.dialect.grammar.setOperations
  groups : openGroups (m.before.map Token.type) = 0
  cases : openCases (m.before.map Token.type) = 0
  called : ∀ t ∈ m.before.getLast?, t.type ∉ callers ++ ownCallers m.dialect
  opened : ∀ ts os, m.before = ts ++ os → os.map Token.type ∉ beforeList m.dialect

theorem Marked.exposed_of_front {m : Marked} {t : Token} (hlast : m.before.getLast? = some t)
    (hoperation : m.token.type ∈ keywordTypes m.dialect.grammar.setOperations)
    (hgroups : openGroups (m.before.map Token.type) = 0)
    (hcases : openCases (m.before.map Token.type) = 0)
    (ht : t.type ∉ callers ++ ownCallers m.dialect ++ beforeListTypes m.dialect) : m.Exposed := by
  rw [List.mem_append, not_or] at ht
  refine ⟨hoperation, hgroups, hcases, ?_, ?_⟩
  · rintro u hu
    obtain rfl := Option.some.inj (hlast.symm.trans hu)
    exact ht.1
  · intro ts os hbefore hos
    have hne : os ≠ [] := by
      rintro rfl
      exact beforeList_ne_nil hos rfl
    rw [hbefore, List.getLast?_append_of_ne_nil _ hne] at hlast
    have hmem : t.type ∈ os.map Token.type := List.mem_map_of_mem (List.mem_of_getLast? hlast)
    exact ht.2 (over_beforeList _ _ hos _ hmem)

/-! ## Steps toward the token -/

namespace Marked

variable {m : Marked} {xs : List Token} {c c' : Cursor} {ts : List TokenType}

structure Stands (m : Marked) (xs : List Token) (c : Cursor) : Prop where
  dialect : c.dialect = m.dialect
  place : ∃ between, m.before = xs ++ between ∧ c.rest = between ++ m.token :: m.behind

def UpTo (m : Marked) (c : Cursor) : Prop := ∃ xs, m.Stands xs c

def ShortOf (m : Marked) (c : Cursor) : Prop := ∃ xs, m.Stands xs c ∧ xs ≠ m.before

theorem ShortOf.upTo (h : m.ShortOf c) : m.UpTo c := by
  obtain ⟨xs, hxs, -⟩ := h
  exact ⟨xs, hxs⟩

theorem UpTo.dialect (h : m.UpTo c) : c.dialect = m.dialect := by
  obtain ⟨xs, hxs⟩ := h
  exact hxs.dialect

theorem Stands.step (h : m.Stands xs c) (hne : xs ≠ m.before) (hc : c.advance = .ok c') :
    m.Stands (xs ++ [c.current]) c' := by
  obtain ⟨hd, between, hbefore, hrest⟩ := h
  refine ⟨(Cursor.advance_dialect hc).trans hd, ?_⟩
  cases between with
  | nil => exact (hne (by simpa using hbefore.symm)).elim
  | cons t between =>
    obtain ⟨rfl, hahead⟩ := List.cons.inj hrest
    refine ⟨between, by simpa using hbefore, ?_⟩
    rcases Cursor.advance_rest hc with hr | ⟨hnil, -⟩
    · exact (List.cons.inj hr).2.symm.trans hahead
    · rw [hnil] at hahead
      simp at hahead

def operationTypes : List TokenType := keywordTypes [.UNION, .INTERSECT, .EXCEPT, .MINUS]

theorem Exposed.mem_operationTypes (h : m.Exposed) : m.token.type ∈ operationTypes := by
  have hall : ∀ t ∈ keywordTypes m.dialect.grammar.setOperations, t ∈ operationTypes := by
    cases m.dialect <;> decide
  exact hall _ h.operation

theorem Exposed.ne_before (h : m.Exposed) (hs : m.Stands xs c)
    (ht : c.current.type ∉ operationTypes) : xs ≠ m.before := by
  rintro rfl
  obtain ⟨-, between, hbefore, hrest⟩ := hs
  obtain rfl : between = [] := by simpa using hbefore
  obtain ⟨hcurrent, -⟩ := List.cons.inj hrest
  exact ht (hcurrent ▸ h.mem_operationTypes)

theorem ShortOf.step (h : m.ShortOf c) (hc : c.advance = .ok c') : m.UpTo c' := by
  obtain ⟨xs, hxs, hne⟩ := h
  exact ⟨_, hxs.step hne hc⟩

theorem steps_short : Steps m.ShortOf ts m.UpTo := fun _ _ hc _ ha => hc.step ha

theorem Exposed.shortOf (h : m.Exposed) (hc : m.UpTo c) (ht : c.current.type ∉ operationTypes) :
    m.ShortOf c := by
  obtain ⟨xs, hxs⟩ := hc
  exact ⟨xs, hxs, h.ne_before hxs ht⟩

theorem Exposed.steps_other (h : m.Exposed) (hts : ∀ t ∈ ts, t ∉ operationTypes) :
    Steps m.UpTo ts m.UpTo :=
  fun _ _ hc ht ha => (h.shortOf hc (hts _ ht)).step ha

theorem Exposed.step_called (h : m.Exposed) (hc : m.UpTo c)
    (ht : c.current.type ∈ callers ++ ownCallers m.dialect) (ha : c.advance = .ok c') :
    m.ShortOf c' := by
  have hapart : ∀ t ∈ callers ++ ownCallers m.dialect, t ∉ operationTypes := by
    cases m.dialect <;> decide
  obtain ⟨xs, hxs⟩ := hc
  refine ⟨_, hxs.step (h.ne_before hxs (hapart _ ht)) ha, fun hbefore => ?_⟩
  exact h.called c.current (by simp [← hbefore]) ht

theorem Exposed.steps_caller (h : m.Exposed) (hts : ∀ t ∈ ts, t ∈ callers) :
    Steps m.UpTo ts m.ShortOf :=
  fun _ _ hc ht ha => h.step_called hc (List.mem_append_left _ (hts _ ht)) ha

theorem Exposed.steps_own (h : m.Exposed)
    (hts : ∀ t ∈ ts, t ∈ callers ++ ownCallers m.dialect) : Steps m.UpTo ts m.ShortOf :=
  fun _ _ hc ht ha => h.step_called hc (hts _ ht) ha

/-! ## What is open -/

theorem openCount_concat (opening closing : TokenType) (ts : List TokenType) (t : TokenType) :
    openCount opening closing (ts ++ [t]) =
      if t = opening then openCount opening closing ts + 1
      else if t = closing then openCount opening closing ts - 1
      else openCount opening closing ts := by
  simp [openCount]

def Within (m : Marked) (opening closing : TokenType) (n : ℕ) (c : Cursor) : Prop :=
  ∃ xs, m.Stands xs c ∧ n ≤ openCount opening closing (xs.map Token.type)

variable {opening closing : TokenType} {n k : ℕ}

theorem Within.upTo (h : m.Within opening closing n c) : m.UpTo c := by
  obtain ⟨xs, hxs, -⟩ := h
  exact ⟨xs, hxs⟩

/-- Where something is open that is closed in front of the marked token, any token can be moved
past. -/
theorem Within.step (h : m.Within opening closing (n + 1) c)
    (hclosed : openCount opening closing (m.before.map Token.type) = 0) (hc : c.advance = .ok c')
    (hk : k ≤ if c.current.type = opening then n + 2
      else if c.current.type = closing then n else n + 1) : m.Within opening closing k c' := by
  obtain ⟨xs, hxs, hn⟩ := h
  have hne : xs ≠ m.before := by
    rintro rfl
    omega
  refine ⟨_, hxs.step hne hc, hk.trans ?_⟩
  rw [List.map_append, List.map_singleton, openCount_concat]
  split
  · omega
  · split <;> omega

theorem Exposed.step_opening (h : m.Exposed) (hc : m.UpTo c) (ht : c.current.type = opening)
    (hopening : opening ∉ operationTypes) (ha : c.advance = .ok c') :
    m.Within opening closing 1 c' := by
  obtain ⟨xs, hxs⟩ := hc
  refine ⟨_, hxs.step (h.ne_before hxs (ht ▸ hopening)) ha, ?_⟩
  rw [List.map_append, List.map_singleton, openCount_concat, if_pos ht]
  omega

theorem Exposed.steps_leftParen (h : m.Exposed) :
    Steps m.UpTo [.symbol .leftParen] m.ShortOf := by
  intro c c' hc ht ha
  have hopen : m.Within (.symbol .leftParen) (.symbol .rightParen) 1 c' :=
    h.step_opening hc (List.mem_singleton.1 ht) (by decide) ha
  obtain ⟨xs, hxs, hn⟩ := hopen
  refine ⟨xs, hxs, ?_⟩
  rintro rfl
  have hzero := h.groups
  unfold openGroups at hzero
  omega

end Marked

end SqlFront

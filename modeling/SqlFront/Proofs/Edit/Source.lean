import SqlFront.Proofs.Cursor.Order
import SqlFront.Proofs.Progress.Expression

/-!
# Edits of the source

An edit that stands for something in the source is made at the current token, and the cursor leaves
the token with it. So no token gets two of them, with one exception to watch: the cursor stays at the
end of the text, where a name may be taken. A reader that may take the end of the text for a name
has to be the last one that edits there. Hence three relations: readers that edit nothing, readers
that edit tokens only, and readers that may also edit the end of the text, once.
-/

set_option autoImplicit false

namespace SqlFront

open SqlFront.Parser

namespace Edit

def isSource : Edit → Bool
  | .table _ _ => true
  | .insertValues _ _ => true
  | .offset _ _ => true
  | .rowCount _ _ => true
  | .index _ _ _ => true
  | .items _ _ _ => false
  | .insertColumn _ _ => false
  | .orderBy _ => false

def sources (es : List Edit) : List Edit := es.filter isSource

variable {es fs : List Edit} {e : Edit}

theorem sources_append : sources (es ++ fs) = sources es ++ sources fs := List.filter_append ..

theorem sources_add (he : e.isSource = true) : sources (es ++ [e]) = sources es ++ [e] := by
  simp [sources, he]

theorem sources_addText (he : e.isSource = false) : sources (es ++ [e]) = sources es := by
  simp [sources, he]

end Edit

open Edit

namespace Cursor

variable {c c₁ c' : Cursor} {e : Edit} {es fs gs : List Edit}

/-! ## Marks on the way of a cursor -/

structure Marks (c c' : Cursor) (es : List Edit) : Prop where
  token : ∀ e ∈ es, ∃ c₁, c.Reaches c₁ ∧ e.start = c₁.current.start
  distinct : (es.map Edit.start).Nodup
  passed : ∀ e ∈ es, e.start < c'.current.start ∨ c'.isAtEnd = true

theorem Marks.nil : Marks c c' [] :=
  ⟨fun _ h => (by cases h), List.nodup_nil, fun _ h => by cases h⟩

theorem Marks.single (h : c.Ordered) (hc : c.advance = .ok c₁) (hr : c₁.Reaches c')
    (he : e.start = c.current.start) : Marks c c' [e] := by
  refine ⟨fun x hx => ?_, List.nodup_singleton _, fun x hx => ?_⟩
  · rw [List.mem_singleton.1 hx]
    exact ⟨c, Reaches.refl c, he⟩
  · rw [List.mem_singleton.1 hx, he]
    exact h.passed hc hr

/-- Marks on one part of the way and on the next. At the end of the text, only one part has any. -/
theorem Marks.append (h : c.Ordered) (hr : c.Reaches c₁) (hr' : c₁.Reaches c')
    (hes : Marks c c₁ es) (hfs : Marks c₁ c' fs) (hend : c₁.isAtEnd = true → fs = []) :
    Marks c c' (es ++ fs) := by
  have h₁ := h.reaches hr
  refine ⟨fun e he => ?_, ?_, fun e he => ?_⟩
  · rcases List.mem_append.1 he with he | he
    · exact hes.token e he
    · obtain ⟨c₂, hc₂, hplace⟩ := hfs.token e he
      exact ⟨c₂, hr.trans hc₂, hplace⟩
  · rw [List.map_append, List.nodup_append]
    refine ⟨hes.distinct, hfs.distinct, fun a ha b hb hab => ?_⟩
    obtain ⟨e, he, rfl⟩ := List.mem_map.1 ha
    obtain ⟨f, hf, rfl⟩ := List.mem_map.1 hb
    obtain ⟨c₂, hc₂, hplace⟩ := hfs.token f hf
    have hle := h₁.start_le hc₂
    rcases hes.passed e he with hlt | hend'
    · omega
    · rw [hend hend'] at hf
      cases hf
  · rcases List.mem_append.1 he with he | he
    · rcases hes.passed e he with hlt | hend'
      · exact Or.inl (hlt.trans_le (h₁.start_le hr'))
      · exact Or.inr (h₁.atEnd hr' hend')
    · exact hfs.passed e he

structure MarksPlaces (c c' : Cursor) (es fs : List Edit) : Prop where
  reaches : c.Reaches c'
  marks : c.Ordered → ∃ gs, fs.Perm (es ++ gs) ∧ Marks c c' gs

structure MarksTokens (c c' : Cursor) (es fs : List Edit) : Prop
    extends MarksPlaces c c' es fs where
  silent : c.Ordered → c.isAtEnd = true → fs.Perm es

theorem MarksTokens.of_eq (h : c.Reaches c') (hes : fs = es) : MarksTokens c c' es fs := by
  subst hes
  exact ⟨⟨h, fun _ => ⟨[], by simp, .nil⟩⟩, fun _ _ => List.Perm.refl _⟩

theorem MarksPlaces.append (h₁ : MarksPlaces c c₁ es fs) (h₂ : MarksTokens c₁ c' fs gs) :
    MarksPlaces c c' es gs := by
  refine ⟨h₁.reaches.trans h₂.reaches, fun h => ?_⟩
  have hc₁ := h.reaches h₁.reaches
  obtain ⟨xs, hxs, hm₁⟩ := h₁.marks h
  obtain ⟨ys, hys, hm₂⟩ := h₂.marks hc₁
  refine ⟨xs ++ ys, ?_, hm₁.append h h₁.reaches h₂.reaches hm₂ fun hend => ?_⟩
  · rw [← List.append_assoc]
    exact hys.trans (hxs.append_right ys)
  · have hlength := (hys.symm.trans (h₂.silent hc₁ hend)).length_eq
    simpa using hlength

theorem MarksTokens.append (h₁ : MarksTokens c c₁ es fs) (h₂ : MarksTokens c₁ c' fs gs) :
    MarksTokens c c' es gs := by
  refine ⟨h₁.toMarksPlaces.append h₂, fun h hend => ?_⟩
  have hend₁ := h.atEnd h₁.reaches hend
  exact (h₂.silent (h.reaches h₁.reaches) hend₁).trans (h₁.silent h hend)

theorem MarksPlaces.perm {fs' : List Edit} (h : MarksPlaces c c' es fs) (hp : fs'.Perm fs) :
    MarksPlaces c c' es fs' := by
  refine ⟨h.reaches, fun ho => ?_⟩
  obtain ⟨gs, hgs, hm⟩ := h.marks ho
  exact ⟨gs, hp.trans hgs, hm⟩

theorem MarksTokens.perm {fs' : List Edit} (h : MarksTokens c c' es fs) (hp : fs'.Perm fs) :
    MarksTokens c c' es fs' :=
  ⟨h.toMarksPlaces.perm hp, fun ho hend => hp.trans (h.silent ho hend)⟩

theorem MarksTokens.frame (h : MarksTokens c c' es fs) (xs : List Edit) :
    MarksTokens c c' (xs ++ es) (xs ++ fs) := by
  refine ⟨⟨h.reaches, fun ho => ?_⟩, fun ho hend => (h.silent ho hend).append_left xs⟩
  obtain ⟨gs, hgs, hm⟩ := h.marks ho
  refine ⟨gs, ?_, hm⟩
  rw [List.append_assoc]
  exact hgs.append_left xs

/-- Nothing is marked before. -/
theorem MarksPlaces.behind (h₁ : c.Reaches c₁) (h₂ : MarksPlaces c₁ c' es fs) :
    MarksPlaces c c' es fs := by
  refine ⟨h₁.trans h₂.reaches, fun h => ?_⟩
  obtain ⟨xs, hxs, hm⟩ := h₂.marks (h.reaches h₁)
  refine ⟨xs, hxs, fun e he => ?_, hm.distinct, hm.passed⟩
  obtain ⟨c₂, hc₂, hplace⟩ := hm.token e he
  exact ⟨c₂, h₁.trans hc₂, hplace⟩

/-- A way that does not begin at the end of the text. -/
theorem MarksPlaces.tokens (h : MarksPlaces c c' es fs) (hend : c.isAtEnd = false) :
    MarksTokens c c' es fs :=
  ⟨h, fun _ hend' => by rw [hend] at hend'; cases hend'⟩

/-- One edit, at the token that is left first. -/
theorem MarksPlaces.single (hc : c.advance = .ok c₁) (hr : c₁.Reaches c')
    (he : e.start = c.current.start) : MarksPlaces c c' es (es ++ [e]) :=
  ⟨(Reaches.single hc).trans hr, fun h => ⟨[e], List.Perm.refl _, .single h hc hr he⟩⟩

/-- One edit at the token that is left first, added when marks have been made behind it. -/
theorem MarksPlaces.first (hend : c₁.isAtEnd = false) (hc : c.advance = .ok c₁)
    (h : MarksPlaces c₁ c' es fs) (he : e.start = c.current.start) :
    MarksPlaces c c' es (fs ++ [e]) := by
  refine ⟨(Reaches.single hc).trans h.reaches, fun ho => ?_⟩
  obtain ⟨h₁, ⟨hend', hsame⟩ | ⟨-, hlt⟩⟩ := ho.step hc
  · rw [isAtEnd, hsame, ← isAtEnd, hend'] at hend
    cases hend
  obtain ⟨xs, hxs, hm⟩ := h.marks h₁
  have hplace : ∀ x ∈ xs, e.start < x.start := by
    intro x hx
    obtain ⟨c₂, hc₂, hplace⟩ := hm.token x hx
    have hle := h₁.start_le hc₂
    omega
  refine ⟨xs ++ [e], ?_, fun x hx => ?_, ?_, fun x hx => ?_⟩
  · rw [← List.append_assoc]
    exact hxs.append_right [e]
  · rcases List.mem_append.1 hx with hx | hx
    · obtain ⟨c₂, hc₂, hplace⟩ := hm.token x hx
      exact ⟨c₂, (Reaches.single hc).trans hc₂, hplace⟩
    · rw [List.mem_singleton.1 hx]
      exact ⟨c, Reaches.refl c, he⟩
  · rw [List.map_append, List.nodup_append]
    refine ⟨hm.distinct, List.nodup_singleton _, fun a ha b hb hab => ?_⟩
    obtain ⟨x, hx, rfl⟩ := List.mem_map.1 ha
    have hb := List.mem_singleton.1 hb
    have hlt := hplace x hx
    omega
  · rcases List.mem_append.1 hx with hx | hx
    · exact hm.passed x hx
    · rw [List.mem_singleton.1 hx, he]
      exact ho.passed hc h.reaches

end Cursor

/-! ## Readers and the edits of the source -/

section

variable {σ : Type} [HasFindings σ] {w w₁ w' : Workspace σ} {e : Edit}

def Workspace.sources (w : Workspace σ) : List Edit := Edit.sources (findings w.draft).edits

structure EditsNothing (w w' : Workspace σ) : Prop where
  reaches : w.cursor.Reaches w'.cursor
  same : w'.sources = w.sources

def EditsTokens (w w' : Workspace σ) : Prop :=
  Cursor.MarksTokens w.cursor w'.cursor w.sources w'.sources

def EditsPlaces (w w' : Workspace σ) : Prop :=
  Cursor.MarksPlaces w.cursor w'.cursor w.sources w'.sources

theorem EditsNothing.tokens (h : EditsNothing w w') : EditsTokens w w' := .of_eq h.reaches h.same

theorem EditsTokens.places (h : EditsTokens w w') : EditsPlaces w w' := h.toMarksPlaces

theorem EditsPlaces.append (h₁ : EditsPlaces w w₁) (h₂ : EditsTokens w₁ w') : EditsPlaces w w' :=
  Cursor.MarksPlaces.append h₁ h₂

theorem EditsNothing.places (h₁ : EditsNothing w w₁) (h₂ : EditsPlaces w₁ w') :
    EditsPlaces w w' := by
  unfold EditsPlaces at h₂ ⊢
  rw [h₁.same] at h₂
  exact h₂.behind h₁.reaches

instance : Stepwise (EditsNothing (σ := σ)) where
  refl _ := ⟨Cursor.Reaches.refl _, rfl⟩
  trans h₁ h₂ := ⟨h₁.reaches.trans h₂.reaches, h₂.same.trans h₁.same⟩
  advance _ h := ⟨Cursor.Reaches.single h, rfl⟩

instance : Stepwise (EditsTokens (σ := σ)) where
  refl w := Cursor.MarksTokens.of_eq (Cursor.Reaches.refl w.cursor) rfl
  trans := Cursor.MarksTokens.append
  advance _ h := .of_eq (Cursor.Reaches.single h) rfl

/-- Behind a token of the text all places may be edited. -/
theorem EditsTokens.behind {c : Cursor} (hend : w.cursor.isAtEnd = false)
    (hc : w.cursor.advance = .ok c) (h : EditsPlaces ⟨c, w.draft⟩ w') : EditsTokens w w' :=
  (Cursor.MarksPlaces.behind (Cursor.Reaches.single hc) h).tokens hend

end

instance : Passing (EditsNothing (σ := Findings)) where
  placeholder _ h := ⟨Cursor.Reaches.single h, rfl⟩
  member _ h h' := ⟨(Cursor.Reaches.single h).trans (Cursor.Reaches.single h'), rfl⟩

instance : Passing (EditsTokens (σ := Findings)) where
  placeholder _ h := .of_eq (Cursor.Reaches.single h) rfl
  member _ h h' := .of_eq ((Cursor.Reaches.single h).trans (Cursor.Reaches.single h')) rfl

/-! ## Composing readers -/

section

variable {σ α β : Type} [HasFindings σ] {p : Parser σ α} {f : α → Parser σ β} {w : Workspace σ}

theorem FollowsAt.editsTokens (h : FollowsAt EditsNothing w p) : FollowsAt EditsTokens w p :=
  fun _ _ hr => (h hr).tokens

theorem Follows.editsTokens (h : Follows EditsNothing p) : Follows EditsTokens p :=
  fun w => (h.at w).editsTokens

theorem Follows.editsPlaces (h : Follows EditsTokens p) : Follows EditsPlaces p :=
  fun _ _ _ hr => (h hr).places

theorem Follows.editsBehind (hp : Follows EditsNothing p) (hf : ∀ a, Follows EditsPlaces (f a)) :
    Follows EditsPlaces (p >>= f) := by
  intro w b w' h
  obtain ⟨a, w₁, ha, hb⟩ := bind_ok.1 h
  exact (hp ha).places (hf a hb)

theorem Follows.editsBefore (hp : Follows EditsPlaces p) (hf : ∀ a, Follows EditsTokens (f a)) :
    Follows EditsPlaces (p >>= f) := by
  intro w b w' h
  obtain ⟨a, w₁, ha, hb⟩ := bind_ok.1 h
  exact (hp ha).append (hf a hb)

omit [HasFindings σ] in
theorem isAtEnd_of_not_mem {ts : List TokenType} (hend : .endOfText ∉ ts)
    (hat : w.cursor.isAtAny ts = true) : w.cursor.isAtEnd = false := by
  rw [Cursor.isAtEnd, beq_eq_false_iff_ne]
  intro hend'
  exact hend (hend' ▸ Cursor.isAtAny_iff.1 hat)

theorem Follows.editsIf {ts : List TokenType} {f : Bool → Parser σ β} (hend : .endOfText ∉ ts)
    (hskipped : Follows EditsPlaces (f true)) (hother : Follows EditsTokens (f false)) :
    Follows EditsTokens (skipIf ts >>= f) := by
  intro w b w' h
  obtain ⟨skipped, w₁, hs, h⟩ := bind_ok.1 h
  obtain ⟨hat, hw⟩ := skipIf_ok.1 hs
  cases skipped with
  | false => exact hother (hw ▸ h)
  | true =>
    obtain ⟨c, hc, rfl⟩ := hw
    exact .behind (isAtEnd_of_not_mem hend hat) hc (hskipped h)

theorem Follows.editsSeparated {ts : List TokenType} (hend : .endOfText ∉ ts)
    (hp : Follows EditsPlaces p) : Follows EditsPlaces (Parser.separated ts p) := by
  have turns : ∀ n before, Follows EditsPlaces (repeatFor (fun before => do
      let x ← p
      if ← skipIf ts then return .inl (before ++ [x]) else return .inr (before ++ [x])) n before) := by
    intro n
    induction n with
    | zero => exact fun _ => .throw _
    | succ n ih =>
      intro before w xs w' h
      obtain ⟨next, w₁, hturn, h⟩ := bind_ok.1 h
      obtain ⟨x, w₂, hx, hturn⟩ := bind_ok.1 hturn
      refine (hp hx).append ?_
      obtain ⟨b, w₃, hs, hturn⟩ := bind_ok.1 hturn
      obtain ⟨hat, hw⟩ := skipIf_ok.1 hs
      cases b with
      | false =>
        obtain ⟨rfl, rfl⟩ := pure_ok.1 hturn
        obtain ⟨-, rfl⟩ := pure_ok.1 h
        exact hw ▸ Stepwise.refl _
      | true =>
        obtain ⟨c, hc, rfl⟩ := hw
        obtain ⟨rfl, rfl⟩ := pure_ok.1 hturn
        exact .behind (isAtEnd_of_not_mem hend hat) hc (ih _ h)
  intro w xs w' h
  obtain ⟨c, _, hc, h⟩ := bind_ok.1 h
  obtain ⟨rfl, rfl⟩ := cursor_ok.1 hc
  exact turns _ _ h

theorem follows_modifyFindings {g : σ → σ}
    (hg : ∀ s, Edit.sources (findings (g s)).edits = Edit.sources (findings s).edits) :
    Follows EditsNothing (modifyDraft g) := by
  intro w u w' h
  obtain rfl := modifyDraft_ok.1 h
  exact ⟨Cursor.Reaches.refl _, hg w.draft⟩

/-! ## Readers of the findings in a draft -/

variable [LawfulFindings σ] {q : Parser Findings α}

theorem sources_setFindings (s : σ) (c : Cursor) (f : Findings) :
    (Workspace.mk c (setFindings s f)).sources = Edit.sources f.edits := by
  rw [Workspace.sources, LawfulFindings.findings_set]

theorem Follows.editsTokens_onFindings (h : Follows EditsTokens q) :
    Follows EditsTokens (Parser.onFindings q : Parser σ α) := by
  intro w a w' hr
  obtain ⟨c, f, hq, rfl⟩ := onFindings_ok.1 hr
  rw [EditsTokens, sources_setFindings]
  exact h hq

theorem Follows.editsPlaces_onFindings (h : Follows EditsPlaces q) :
    Follows EditsPlaces (Parser.onFindings q : Parser σ α) := by
  intro w a w' hr
  obtain ⟨c, f, hq, rfl⟩ := onFindings_ok.1 hr
  rw [EditsPlaces, sources_setFindings]
  exact h hq

end

end SqlFront

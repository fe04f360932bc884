import SqlFront.Proofs.Derived.Level
import SqlFront.Proofs.Lexeme.Edge
import SqlFront.Proofs.SortKey.Value

/-!
# The text that tokens stand in

The text from the first of several tokens to the last one begins and ends with them, so that nothing
is trimmed from it.
-/

set_option autoImplicit false

namespace SqlFront

variable {d : Dialect} {sql : String} {text : List Char} {c c' : Cursor} {t u : Token}
  {before ts us more : List Token}

def spanOf (text : List Char) (ts : List Token) : String :=
  slice text (ts.head?.elim 0 Token.start) (placeBehind 0 ts)

theorem exists_ends (text : List Char) (hne : ts ≠ []) : ∃ t u, ts.head? = some t ∧
    ts.getLast? = some u ∧ spanOf text ts = slice text t.start u.stop := by
  obtain ⟨t, us, rfl⟩ := List.exists_cons_of_ne_nil hne
  obtain ⟨vs, u, hlast⟩ := List.eq_nil_or_concat (t :: us) |>.resolve_left hne
  rw [List.concat_eq_append] at hlast
  refine ⟨t, u, rfl, by rw [hlast, List.getLast?_concat], ?_⟩
  rw [spanOf, hlast, placeBehind_concat, ← hlast]
  rfl

theorem Cursor.Walk.span (h : c.Walk ts c') (hne : ts ≠ []) :
    SqlFront.slice c'.text c.current.start c'.previousStop = spanOf c.text ts := by
  obtain ⟨t, ts, rfl⟩ := List.exists_cons_of_ne_nil hne
  rw [spanOf, h.text, h.previousStop, ← h.head]
  rfl

/-- What is in front of a cursor are tokens of the text, unless the cursor is at its end. -/
theorem Arrived.tokens (hc : Arrived d sql c) (hts : c.Faces ts) (hne : ts ≠ [])
    (hend : ∀ n, ts ≠ [Token.atEnd n]) :
    ∃ before, (TokenStream.ofText d sql.toList).tokens = before ++ ts := by
  obtain ⟨before, rest, hall, hrest⟩ := hc.faces
  have hfront : c.rest = ts := hts.rest.resolve_right fun h => hne h.1
  rcases hrest.rest with hr | ⟨-, hnil, n, hn⟩
  · exact ⟨before, by rw [hall, ← hr, hfront]⟩
  · rw [Cursor.rest, hnil, hn] at hfront
    exact (hend n hfront.symm).elim

/-- No token in front of a cursor is the end of the text, unless the cursor is there. -/
theorem Arrived.inner (hc : Arrived d sql c) (hts : c.Faces ts) (hend : frontType ts ≠ .endOfText) :
    ∀ u ∈ ts, u.type ≠ .endOfText := by
  intro u hu
  have htoken : ∀ n, ts ≠ [Token.atEnd n] := by
    rintro n rfl
    exact hend rfl
  obtain ⟨before, htokens⟩ := hc.tokens hts (List.ne_nil_of_mem hu) htoken
  exact TokenStream.scan_type (show u ∈ (TokenStream.ofText d sql.toList).tokens by simp [htokens, hu])

namespace TokenStream

theorem start_lt_stop (hall : (ofText d text).tokens = before ++ t :: (ts ++ more))
    (hu : u ∈ t :: ts) : t.start < u.stop := by
  have ht := (standsIn (d := d) (show t ∈ (ofText d text).tokens by simp [hall])).nonempty
  rcases List.mem_cons.1 hu with rfl | hu
  · exact ht
  · have hbehind := stop_le hall (List.mem_append_left more hu)
    have hlast := (standsIn (d := d) (show u ∈ (ofText d text).tokens by simp [hall, hu])).nonempty
    omega

theorem trimmed_span (hall : (ofText d text).tokens = before ++ (ts ++ more)) (hne : ts ≠ []) :
    trimmed (spanOf text ts) = spanOf text ts := by
  obtain ⟨t, u, ht, hu, hspan⟩ := exists_ends text hne
  obtain ⟨ts, rfl⟩ := List.head?_eq_some_iff.1 ht
  replace hu := List.mem_of_getLast? hu
  rw [hspan]
  refine trimmed_slice (d := d) ?_ ?_ (start_lt_stop hall hu)
  · simp [hall]
  · rw [hall]
    exact List.mem_append_right _ (List.mem_append_left _ hu)

end TokenStream

/-- Nothing is trimmed from the text of tokens in front of a cursor. -/
theorem Arrived.trimmed_span (hc : Arrived d sql c) (hts : c.Faces (ts ++ more)) (hne : ts ≠ [])
    (hend : frontType ts ≠ .endOfText) : trimmed (spanOf c.text ts) = spanOf c.text ts := by
  have hfront : frontType (ts ++ more) = frontType ts := frontType_append hne
  have htoken : ∀ n, ts ++ more ≠ [Token.atEnd n] := by
    intro n hatEnd
    rw [← hfront, hatEnd] at hend
    exact hend rfl
  obtain ⟨before, htokens⟩ := hc.tokens hts (List.append_ne_nil_of_left_ne_nil hne more) htoken
  rw [hc.text]
  exact TokenStream.trimmed_span htokens hne

end SqlFront

import Reckoner.Proofs.Token.Terminator

/-!
Layout: what may stand between tokens. It consists of blanks and comments. A comment goes on up to
the end of its line, and the end of the line is a blank; only a comment on the last line of a
source ends with the source.
-/

set_option autoImplicit false
set_option relaxedAutoImplicit false

namespace Reckoner

open Text

/-- Whether a text is layout. The flag says whether the source ends with it. -/
inductive IsLayout (atEnd : Bool) : List Char → Prop where
  | nil : IsLayout atEnd []
  | blank {c : Char} {rest : List Char} (hblank : isBlank c = true) (hrest : IsLayout atEnd rest) :
      IsLayout atEnd (c :: rest)
  | comment {body rest : List Char} (hbody : '\r' ∉ body)
      (hrest : IsLayout atEnd ('\r' :: rest)) :
      IsLayout atEnd ('/' :: '/' :: (body ++ '\r' :: rest))
  | lastComment {body : List Char} (hend : atEnd = true) (hbody : '\r' ∉ body) :
      IsLayout atEnd ('/' :: '/' :: body)

namespace Cursor

/-- What has been read of the comment that the flag speaks of. -/
def Opens (inComment : Bool) (front : List Char) : Prop :=
  match inComment with
  | false => front = []
  | true => ∃ body, front = '/' :: '/' :: body ∧ '\r' ∉ body

/-- What is passed over between tokens is layout. -/
theorem isLayout_layout {inComment atEnd : Bool} {source front : List Char}
    (hend : layout inComment source = source → atEnd = true) (hfront : Opens inComment front) :
    IsLayout atEnd (front ++ layout inComment source) := by
  have hreturn : isBlank '\r' = true := by decide
  fun_induction layout inComment source generalizing front with
  | case1 inComment =>
    cases inComment with
    | false =>
      obtain rfl : front = [] := hfront
      exact .nil
    | true =>
      obtain ⟨body, rfl, hbody⟩ := hfront
      rw [List.append_nil]
      exact .lastComment (hend rfl) hbody
  | case2 c rest ih =>
    obtain ⟨body, rfl, hbody⟩ := hfront
    have hrest := fun front ↦ @ih front fun h ↦ hend (by rw [h])
    by_cases hc : c = '\r'
    · subst hc
      exact .comment hbody (.blank hreturn (hrest [] rfl))
    · have hmore : '\r' ∉ body ++ [c] := by simp [hbody, Ne.symm hc]
      have hopen : Opens (c ≠ '\r') ('/' :: '/' :: (body ++ [c])) := by
        rw [decide_eq_true hc]
        exact ⟨body ++ [c], rfl, hmore⟩
      simpa using hrest _ hopen
  | case3 rest ih =>
    obtain rfl : front = [] := hfront
    exact ih (fun h ↦ hend (by rw [h])) ⟨[], rfl, List.not_mem_nil⟩
  | case4 c rest hslashes hblank ih =>
    obtain rfl : front = [] := hfront
    exact .blank hblank (ih (fun h ↦ hend (by rw [h])) rfl)
  | case5 c rest hslashes hblank =>
    obtain rfl : front = [] := hfront
    exact .nil

/-- The layout in front of a character. -/
theorem isLayout_skipLayout {here : Cursor} (h : here.skipLayout.rest ≠ []) :
    IsLayout false (layout false here.rest) :=
  isLayout_layout (fun hall ↦ absurd (rest_skipLayout_eq_nil.mpr hall) h) rfl

/-- The layout at the end of a source. -/
theorem isLayout_rest {here : Cursor} (h : here.skipLayout.rest = []) :
    IsLayout true here.rest := by
  have hall := rest_skipLayout_eq_nil.mp h
  rw [← hall]
  change IsLayout true ([] ++ layout false here.rest)
  exact isLayout_layout (fun _ ↦ rfl) rfl

end Cursor

/-- Blanks are layout. -/
theorem isLayout_of_isBlank {gap : List Char} (h : ∀ c ∈ gap, isBlank c = true) (atEnd : Bool) :
    IsLayout atEnd gap := by
  induction gap with
  | nil => exact .nil
  | cons c gap ih =>
    obtain ⟨hc, hgap⟩ := List.forall_mem_cons.mp h
    exact .blank hc (ih hgap)

namespace Cursor

/-! Layout is what is passed over. -/

theorem layout_line {body : List Char} (h : '\r' ∉ body) (more : List Char) :
    layout true (body ++ '\r' :: more) = body ++ '\r' :: layout false more := by
  induction body with
  | nil => simp [layout]
  | cons c body ih =>
    obtain ⟨hc, hbody⟩ := List.ne_and_not_mem_of_not_mem_cons h
    rw [List.cons_append, layout, decide_eq_true hc.symm, ih hbody, List.cons_append]

theorem layout_lastLine {body : List Char} (h : '\r' ∉ body) : layout true body = body := by
  induction body with
  | nil => rfl
  | cons c body ih =>
    obtain ⟨hc, hbody⟩ := List.ne_and_not_mem_of_not_mem_cons h
    rw [layout, decide_eq_true hc.symm, ih hbody]

/-- Layout in front of a text is passed over, and what is layout in the text. -/
theorem layout_append_of_isLayout {gap : List Char} (h : IsLayout false gap) (more : List Char) :
    layout false (gap ++ more) = gap ++ layout false more := by
  have hreturn : isBlank '\r' = true := by decide
  induction h with
  | nil => rfl
  | blank hblank _ ih => rw [List.cons_append, layout_blank hblank, ih, List.cons_append]
  | @comment body rest hbody _ ih =>
    rw [List.cons_append, layout_blank hreturn, List.cons_append] at ih
    rw [List.cons_append, List.cons_append, List.append_assoc, List.cons_append, layout,
      layout_line hbody, (List.cons.inj ih).2]
    simp
  | lastComment hend _ => cases hend

/-- Layout is passed over as a whole. -/
theorem layout_of_isLayout {atEnd : Bool} {gap : List Char} (h : IsLayout atEnd gap) : layout false gap = gap := by
  have hreturn : isBlank '\r' = true := by decide
  induction h with
  | nil => rfl
  | blank hblank _ ih => rw [layout_blank hblank, ih]
  | comment hbody _ ih =>
    rw [layout_blank hreturn] at ih
    rw [layout, layout_line hbody, (List.cons.inj ih).2]
  | lastComment _ hbody => rw [layout, layout_lastLine hbody]

end Cursor

end Reckoner

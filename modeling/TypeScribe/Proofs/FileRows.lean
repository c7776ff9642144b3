import TypeScribe.File
import TypeScribe.Proofs.Endings

/-!
# The rows of a file

A file is written as the rows of its banner, an empty row if elements follow it, and the rows of its elements
with a gap after each but the last. No element's rows depend on what stands before them.

* `CodeFile.text_eq_rows`: the text of a file is the text of its rows.
* `elementRows_append`: the rows of two lists of elements, with the gap of the last one of the first list in
  between.
-/

namespace TypeScribe

/-- The rows of elements that follow each other, with the gaps between them. -/
def elementRows (topLevel : Bool) (level : Nat) : List Element → List Row
  | [] => []
  | [e] => rowsOf level (e.fragments topLevel)
  | e :: next :: rest =>
    rowsOf level (e.fragments topLevel) ++ e.gap ++ elementRows topLevel level (next :: rest)

/-- The gap after elements that others follow. -/
def gapAfter (es : List Element) : List Row :=
  match es.getLast? with
  | none => []
  | some e => e.gap

/-- The rows of a banner. -/
def bannerRows (level : Nat) (banner : Option String) : List Row :=
  rowsOf level (CodeFile.bannerFragments banner)

/-- The empty row that sets elements off from a banner, where there is something of both. -/
def bannerGap (level : Nat) (banner : Option String) (es : List Element) : List Row :=
  if bannerRows level banner = [] ∨ es = [] then [] else [.bare]

/-- The rows of a file whose lines start at a level. -/
def CodeFile.rows (f : CodeFile) (level : Nat) : List Row :=
  bannerRows level f.banner ++ bannerGap level f.banner f.elements ++ elementRows true level f.elements

@[simp] theorem elementRows_nil (topLevel : Bool) (level : Nat) : elementRows topLevel level [] = [] := by
  rw [elementRows]

/-- Elements that follow one element stand after its gap. -/
theorem elementRows_cons (topLevel : Bool) (level : Nat) (e : Element) {es : List Element} (h : es ≠ []) :
    elementRows topLevel level (e :: es) =
      rowsOf level (e.fragments topLevel) ++ e.gap ++ elementRows topLevel level es := by
  cases es with
  | nil => exact absurd rfl h
  | cons next rest => rw [elementRows]

theorem elementRows_append (topLevel : Bool) (level : Nat) (a : List Element) {b : List Element}
    (hb : b ≠ []) :
    elementRows topLevel level (a ++ b) =
      elementRows topLevel level a ++ gapAfter a ++ elementRows topLevel level b := by
  induction a with
  | nil => rfl
  | cons e a ih =>
    rw [List.cons_append, elementRows_cons _ _ _ (List.append_ne_nil_of_right_ne_nil a hb), ih]
    cases a with
    | nil => simp only [elementRows, gapAfter, List.getLast?, List.nil_append]; rfl
    | cons next rest =>
      rw [elementRows_cons _ _ _ (List.cons_ne_nil _ _), gapAfter, gapAfter, List.getLast?_cons_cons]
      simp only [List.append_assoc]

/-! ## Writing a file -/

namespace Writer

@[simp] theorem separator_indent (w : Writer) : w.separator.indent = w.indent := by
  unfold separator; split <;> rfl

/-- An element adds its rows after a separator. -/
theorem writeElement_eq_add (w : Writer) (e : Element) :
    CodeFile.writeElement w e = w.separator.add (rowsText w.indent (rowsOf w.level (e.fragments true))) := by
  rw [CodeFile.writeElement, writeAll_eq_add, separator_indent, separator_level]

/-- The separator after an element adds the gap of the element. -/
theorem separator_writeElement (w : Writer) (e : Element) :
    (CodeFile.writeElement w e).separator =
      w.separator.add (rowsText w.indent (rowsOf w.level (e.fragments true) ++ e.gap)) := by
  rw [CodeFile.writeElement, separator_writeAll, separator_indent, separator_level]

/-- Elements add their rows, with the gaps between them, after one separator. -/
theorem foldl_writeElement (e : Element) (es : List Element) (w : Writer) :
    (e :: es).foldl CodeFile.writeElement w =
      w.separator.add (rowsText w.indent (elementRows true w.level (e :: es))) := by
  induction es generalizing e w with
  | nil => rw [List.foldl_cons, List.foldl_nil, writeElement_eq_add, elementRows]
  | cons next rest ih =>
    have hi : (CodeFile.writeElement w e).indent = w.indent := by
      rw [writeElement_eq_add]; exact separator_indent w
    have hl : (CodeFile.writeElement w e).level = w.level := by
      rw [writeElement_eq_add]; exact separator_level w
    rw [List.foldl_cons, ih, separator_writeElement, hi, hl, add_add, ← rowsText_append, elementRows]

end Writer

/-! ## Banners -/

/-- A line holds no line feed. -/
theorem newline_not_mem_splitLines (cs : List Char) : ∀ line ∈ splitLines cs, '\n' ∉ line := by
  fun_induction splitLines cs with
  | case1 => exact fun _ h => absurd h List.not_mem_nil
  | case2 rest ih => exact List.forall_mem_cons.mpr ⟨List.not_mem_nil, ih⟩
  | case3 rest ih => exact List.forall_mem_cons.mpr ⟨List.not_mem_nil, ih⟩
  | case4 c rest hc _ ih =>
    have hn : '\n' ≠ c := fun h => hc h.symm
    cases hs : splitLines rest with
    | nil => simpa [consLine] using hn
    | cons line lines =>
      rw [hs] at ih
      have hline := ih line List.mem_cons_self
      refine List.forall_mem_cons.mpr ⟨?_, fun l h => ih l (List.mem_cons_of_mem _ h)⟩
      exact fun h => (List.mem_cons.mp h).elim hn hline

theorem newline_not_mem_lines {text line : String} (h : line ∈ lines text) : '\n' ∉ line.toList := by
  obtain ⟨cs, hcs, rfl⟩ := List.mem_map.mp h
  rw [String.toList_ofList]
  exact newline_not_mem_splitLines _ cs hcs

theorem bannerRows_some (level : Nat) (text : String) :
    bannerRows level (some text) = (lines text).map fun line => .at level ("// " ++ line) := by
  show rowsOf level ((lines text).map .comment) = _
  induction lines text with
  | nil => exact rowsOf_nil
  | cons line rest ih => rw [List.map_cons, rowsOf_cons, ih, Fragment.rows]; rfl

theorem bannerRows_closed {level : Nat} {banner : Option String} (h : bannerRows level banner ≠ []) :
    Closed (bannerRows level banner) := by
  cases banner with
  | none => exact absurd rowsOf_nil h
  | some text =>
    rw [bannerRows_some] at h ⊢
    rcases List.eq_nil_or_concat (lines text) with hl | ⟨init, last, hl⟩
    · exact absurd (by rw [hl]; rfl) h
    · have hm : last ∈ lines text := by rw [hl]; simp
      have hend : ¬ ['\n'] <:+ last.toList :=
        fun hsuffix => newline_not_mem_lines hm (hsuffix.subset (List.mem_singleton_self _))
      rw [hl, List.concat_eq_append, List.map_append]
      exact (closed_singleton (endsInk_comment hend)).append _

/-! ## Files -/

theorem Writer.separator_start (indent : Indent) (level : Nat) :
    (Writer.start indent level).separator = Writer.start indent level := rfl

/-- The text of a file is the text of its rows. -/
theorem CodeFile.text_eq_rows (f : CodeFile) (indent : Indent) (level : Nat) :
    f.text indent level = rowsText indent (f.rows level) := by
  have hw : (Writer.start indent level).writeAll (bannerFragments f.banner) =
      (Writer.start indent level).add (rowsText indent (bannerRows level f.banner)) :=
    Writer.writeAll_eq_add _ _
  have hadd : ∀ t, ((Writer.start indent level).add t).text = t := fun t => String.empty_append
  rw [text, rows, hw]
  cases hes : f.elements with
  | nil =>
    rw [List.foldl_nil, hadd, elementRows_nil, bannerGap, if_pos (.inr rfl), List.append_nil, List.append_nil]
  | cons e es =>
    rw [Writer.foldl_writeElement]
    by_cases hb : bannerRows level f.banner = []
    · rw [hb, rowsText_nil, Writer.add_empty, Writer.separator_start, bannerGap, if_pos (.inl hb)]
      exact hadd _
    · have hsep := Writer.separator_of_closed (Writer.start indent level) (bannerRows_closed hb)
      have hne : ¬ (bannerRows level f.banner = [] ∨ e :: es = []) := not_or.mpr ⟨hb, List.cons_ne_nil _ _⟩
      rw [bannerGap, if_neg hne, rowsText_append]
      refine (congrArg Writer.text (congrArg (Writer.add · _) hsep)).trans ?_
      exact congrArg (· ++ _) (hadd _)

/-- A file without a banner has the rows of its elements. -/
theorem CodeFile.rows_ofElements (es : List Element) (level : Nat) :
    (ofElements es).rows level = elementRows true level es := by
  show bannerRows level none ++ bannerGap level none es ++ _ = _
  rw [bannerGap, if_pos (.inl rowsOf_nil), bannerRows]; rfl

theorem CodeFile.text_ofElements (indent : Indent) (level : Nat) (es : List Element) :
    (ofElements es).text indent level = rowsText indent (elementRows true level es) := by
  rw [text_eq_rows, rows_ofElements]

end TypeScribe

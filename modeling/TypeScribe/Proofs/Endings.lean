import TypeScribe.Element.Layout
import TypeScribe.Proofs.Rows

/-!
# How elements end

The last row of an element ends in a character of its own, whatever the texts of the element are, and only a
loop has an empty row after it. So an empty row before the next element is wanted after every element but a
loop, and the look at the end of the text that a separator takes comes to just that.

* `Element.rows_end`: the end of the rows of an element.
* `Writer.separator_writeAll`: what a separator adds after an element.
-/

namespace TypeScribe

/-- A loop is an element that leaves an empty line behind it. -/
def Element.isLoop : Element → Bool
  | .forLoop .. | .forOfLoop .. => true
  | _ => false

/-- The empty line between an element and the next one. -/
def Element.gap (e : Element) : List Row :=
  if e.isLoop then [] else [.bare]

/-- A text whose last character is not a line feed. -/
def EndsInk (text : String) : Prop :=
  ∃ init last, text.toList = init ++ [last] ∧ last ≠ '\n'

/-- Rows of which the last one is a text that does not end in a line feed. -/
def Closed (rows : List Row) : Prop :=
  ∃ init level text, rows = init ++ [.at level text] ∧ EndsInk text

theorem EndsInk.append {t : String} (s : String) (h : EndsInk t) : EndsInk (s ++ t) := by
  obtain ⟨init, last, ht, hn⟩ := h
  exact ⟨s.toList ++ init, last, by rw [String.toList_append, ht, List.append_assoc], hn⟩

theorem EndsInk.not_newline_suffix {text : String} (h : EndsInk text) : ¬ ['\n'] <:+ text.toList := by
  obtain ⟨init, last, ht, hn⟩ := h
  rintro ⟨before, hbefore⟩
  rw [ht] at hbefore
  exact hn (List.singleton_inj.mp (List.append_inj' hbefore rfl).2).symm

/-- A text that is not empty and does not end in a line feed ends in ink. -/
theorem endsInk_of_not_newline {text : String} (hne : text ≠ "") (hend : ¬ ['\n'] <:+ text.toList) :
    EndsInk text := by
  rcases List.eq_nil_or_concat text.toList with hnil | ⟨init, last, hlast⟩
  · exact absurd (String.toList_eq_nil_iff.mp hnil) hne
  · rw [List.concat_eq_append] at hlast
    refine ⟨init, last, hlast, fun hn => hend ?_⟩
    rw [hlast, hn]
    exact List.suffix_append init ['\n']

/-- A comment line ends in ink, even if it is empty. -/
theorem endsInk_comment {text : String} (h : ¬ ['\n'] <:+ text.toList) : EndsInk ("// " ++ text) := by
  by_cases hne : text = ""
  · rw [hne]
    exact ⟨['/', '/'], ' ', rfl, by decide⟩
  · exact (endsInk_of_not_newline hne h).append _

theorem endsInk_closeBrace : EndsInk closeBrace := ⟨[], '\x7d', rfl, by decide⟩

theorem endsInk_semicolon : EndsInk ";" := ⟨[], ';', rfl, by decide⟩

theorem closed_singleton {level : Nat} {t : String} (h : EndsInk t) : Closed [.at level t] :=
  ⟨[], level, t, rfl, h⟩

theorem Closed.append {rows : List Row} (before : List Row) (h : Closed rows) : Closed (before ++ rows) := by
  obtain ⟨init, level, text, rfl, hi⟩ := h
  exact ⟨before ++ init, level, text, (List.append_assoc ..).symm, hi⟩

/-! ## Verbatim texts and braces -/

theorem spliceRest_closed (level : Nat) {tail : String} (h : EndsInk tail) :
    ∀ texts, texts ≠ [] → Closed (rowsOf level (spliceRest tail texts))
  | [], hne => absurd rfl hne
  | [last], _ => by
    rw [spliceRest, rowsOf_singleton, Fragment.rows]
    exact closed_singleton (h.append last)
  | text :: next :: rest, _ => by
    rw [spliceRest, rowsOf_cons]
    exact (spliceRest_closed level h (next :: rest) (List.cons_ne_nil _ _)).append _

/-- A spliced text ends in its tail. -/
theorem splice_closed (level : Nat) (head text : String) {tail : String} (h : EndsInk tail) :
    Closed (rowsOf level (splice head text tail)) := by
  unfold splice
  split
  · rw [rowsOf_singleton, Fragment.rows]
    exact closed_singleton (h.append head)
  · rw [rowsOf_singleton, Fragment.rows]
    exact closed_singleton (h.append _)
  · rw [rowsOf_cons]
    exact (spliceRest_closed level h _ (List.cons_ne_nil _ _)).append _

/-- A braced body ends in its brace and what follows the brace. -/
theorem braced_closed (level : Nat) (header : String) (body : List Fragment) {suffix : String}
    (h : EndsInk (closeBrace ++ suffix)) : Closed ((braced header body suffix).rows level) := by
  unfold braced
  split
  · rw [Fragment.rows, String.append_assoc]
    exact closed_singleton (h.append _)
  · rw [Fragment.rows, ← List.cons_append]
    exact (closed_singleton h).append _

theorem braced_singleton_closed (level : Nat) (header : String) (body : List Fragment) {suffix : String}
    (h : EndsInk (closeBrace ++ suffix)) : Closed (rowsOf level [braced header body suffix]) := by
  rw [rowsOf_singleton]
  exact braced_closed level header body h

theorem endsInk_brace : EndsInk (closeBrace ++ "") := String.append_empty ▸ endsInk_closeBrace

theorem endsInk_brace_semicolon : EndsInk (closeBrace ++ ";") := endsInk_semicolon.append _

/-! ## Elements -/

theorem loopFragments_rows (level : Nat) (header : String) (body : List Fragment) :
    rowsOf level (loopFragments header body) = (braced header body "").rows level ++ [.bare] := by
  rw [loopFragments, rowsOf_singleton, Fragment.rows, rowsOf_cons, rowsOf_singleton, Fragment.rows]

theorem branchFragments_rows (level : Nat) (header : String) (body otherwise : List Fragment) :
    rowsOf level (branchFragments header body otherwise) =
      .at level (headed header ++ openBrace) :: rowsOf (level + 1) body ++
        .at level elseText :: rowsOf (level + 1) otherwise ++ [.at level closeBrace] := by
  simp only [branchFragments, rowsOf_cons, rowsOf_nil, Fragment.rows, Option.toList_none, Option.toList_some,
    List.map_nil, List.map_cons, List.append_nil, List.append_assoc, List.cons_append]

/-- The rows of an element end in a text of the element, with an empty row after it for a loop. -/
theorem Element.rows_end (topLevel : Bool) (level : Nat) (e : Element) :
    ∃ rows, Closed rows ∧
      rowsOf level (e.fragments topLevel) = rows ++ if e.isLoop then [.bare] else [] := by
  have whole : Closed (rowsOf level (e.fragments topLevel)) → e.isLoop = false →
      ∃ rows, Closed rows ∧
        rowsOf level (e.fragments topLevel) = rows ++ if e.isLoop then [.bare] else [] := by
    intro hc hl
    exact ⟨_, hc, by rw [hl]; exact (List.append_nil _).symm⟩
  cases e with
  | constDecl decl =>
    refine whole ?_ rfl
    rw [fragments, Constant.fragments]
    split
    · exact splice_closed level _ _ endsInk_semicolon
    · exact braced_singleton_closed level _ _ endsInk_brace_semicolon
  | typeDecl decl => exact whole (splice_closed level _ _ endsInk_semicolon) rfl
  | interfaceDecl decl => exact whole (braced_singleton_closed level _ _ endsInk_brace) rfl
  | functionDecl head body => exact whole (braced_singleton_closed level _ _ endsInk_brace) rfl
  | arrowFunction signature body =>
    exact whole (braced_singleton_closed level _ _ endsInk_brace_semicolon) rfl
  | classDecl head methods => exact whole (braced_singleton_closed level _ _ endsInk_brace) rfl
  | enumDecl decl => exact whole (braced_singleton_closed level _ _ endsInk_brace) rfl
  | ifElse condition body otherwise =>
    refine whole ?_ rfl
    cases otherwise with
    | none => exact braced_singleton_closed level _ _ endsInk_brace
    | some otherwise =>
      rw [fragments, branchFragments_rows]
      exact (closed_singleton endsInk_closeBrace).append _
  | forLoop clauses body =>
    exact ⟨_, braced_closed level _ _ endsInk_brace, by rw [fragments, loopFragments_rows]; rfl⟩
  | forOfLoop iteration body =>
    exact ⟨_, braced_closed level _ _ endsInk_brace, by rw [fragments, loopFragments_rows]; rfl⟩

theorem endsWithBlank_spliceRest (tail : String) :
    ∀ texts, texts ≠ [] → endsWithBlank (spliceRest tail texts) = false
  | [], hne => absurd rfl hne
  | [last], _ => by rw [spliceRest, endsWithBlank_singleton, Fragment.endsWithBlank]
  | text :: next :: rest, _ => by
    have ih := endsWithBlank_spliceRest tail (next :: rest) (List.cons_ne_nil _ _)
    have hne : spliceRest tail (next :: rest) ≠ [] := by
      rw [← List.length_pos_iff, spliceRest_length]; exact Nat.succ_pos _
    rw [spliceRest, ← List.singleton_append, endsWithBlank_append _ _ hne, ih]

theorem endsWithBlank_splice (head text tail : String) : endsWithBlank (splice head text tail) = false := by
  unfold splice
  split
  · rw [endsWithBlank_singleton, Fragment.endsWithBlank]
  · rw [endsWithBlank_singleton, Fragment.endsWithBlank]
  · rename_i first next rest _
    have hne : spliceRest tail (next :: rest) ≠ [] := by
      rw [← List.length_pos_iff, spliceRest_length]; exact Nat.succ_pos _
    rw [← List.singleton_append, endsWithBlank_append _ _ hne]
    exact endsWithBlank_spliceRest tail _ (List.cons_ne_nil _ _)

theorem endsWithBlank_braced (header : String) (body : List Fragment) (suffix : String) :
    (braced header body suffix).endsWithBlank = false := by
  unfold braced
  split <;> rw [Fragment.endsWithBlank]

/-- Its fragments tell of an element that it ends on an empty line exactly when it is a loop. -/
theorem Element.endsWithBlank_fragments (topLevel : Bool) (e : Element) :
    endsWithBlank (e.fragments topLevel) = e.isLoop := by
  cases e with
  | constDecl decl =>
    rw [fragments, Constant.fragments]
    split
    · exact endsWithBlank_splice _ _ _
    · rw [endsWithBlank_singleton, endsWithBlank_braced]; rfl
  | typeDecl decl => exact endsWithBlank_splice _ _ _
  | ifElse condition body otherwise =>
    cases otherwise with
    | none => rw [fragments, endsWithBlank_singleton, endsWithBlank_braced]; rfl
    | some otherwise =>
      simp [fragments, branchFragments, TypeScribe.endsWithBlank, Fragment.endsWithBlank, isLoop]
  | forLoop clauses body =>
    simp [fragments, loopFragments, TypeScribe.endsWithBlank, Fragment.endsWithBlank, isLoop]
  | forOfLoop iteration body =>
    simp [fragments, loopFragments, TypeScribe.endsWithBlank, Fragment.endsWithBlank, isLoop]
  | _ =>
    simp only [fragments, Interface.fragments, Enumeration.fragments, endsWithBlank_singleton,
      endsWithBlank_braced]
    rfl

/-! ## Separators -/

/-- Closed rows are written as a text of ink and its line feed. -/
theorem Closed.text_eq (indent : Indent) {rows : List Row} (h : Closed rows) :
    ∃ s, rowsText indent rows = s ++ "\n" ∧ EndsInk s := by
  obtain ⟨init, level, text, rfl, hi⟩ := h
  refine ⟨rowsText indent init ++ (indent.lead level ++ text), ?_, (hi.append _).append _⟩
  rw [rowsText_append, rowsText_singleton, Row.text, String.append_assoc,
    String.append_assoc, String.append_assoc]

namespace Writer

theorem isEmpty_add_newline (w : Writer) (s : String) : (w.add (s ++ "\n")).text.isEmpty = false := by
  rw [add_text, ← Bool.not_eq_true, String.isEmpty_iff, ← String.toList_inj]
  simp

theorem endsWithBlank_add_ink (w : Writer) {s : String} (h : EndsInk s) :
    (w.add (s ++ "\n")).endsWithBlank = false := by
  obtain ⟨init, last, hs, hn⟩ := h
  simp [endsWithBlank, hs, List.isSuffixOf, List.isPrefixOf, Ne.symm hn]

theorem endsWithBlank_add_bare (w : Writer) (s : String) :
    (w.add (s ++ "\n" ++ "\n")).endsWithBlank = true := by
  simp [endsWithBlank, List.isSuffixOf, List.isPrefixOf]

/-- A separator after closed rows is an empty line. -/
theorem separator_of_closed (w : Writer) {rows : List Row} (h : Closed rows) :
    (w.add (rowsText w.indent rows)).separator = w.add (rowsText w.indent (rows ++ [.bare])) := by
  obtain ⟨s, hs, hi⟩ := h.text_eq w.indent
  rw [rowsText_append, rowsText_bare, ← add_add, hs, separator, isEmpty_add_newline,
    endsWithBlank_add_ink w hi]
  rfl

/-- A separator after an empty row that follows closed rows adds nothing. -/
theorem separator_of_bare (w : Writer) {rows : List Row} (h : Closed rows) :
    (w.add (rowsText w.indent (rows ++ [.bare]))).separator =
      w.add (rowsText w.indent (rows ++ [.bare])) := by
  obtain ⟨s, hs, -⟩ := h.text_eq w.indent
  have hb : rowsText w.indent (rows ++ [.bare]) = s ++ "\n" ++ "\n" := by
    rw [rowsText_append, hs, rowsText_bare]
  rw [separator, hb, endsWithBlank_add_bare, Bool.or_true]
  rfl

/-- A separator after an element adds the gap of the element, whatever was written before. -/
theorem separator_writeAll (w : Writer) (topLevel : Bool) (e : Element) :
    (w.writeAll (e.fragments topLevel)).separator =
      w.add (rowsText w.indent (rowsOf w.level (e.fragments topLevel) ++ e.gap)) := by
  obtain ⟨rows, hc, hr⟩ := e.rows_end topLevel w.level
  rw [writeAll_eq_add, hr, Element.gap]
  cases e.isLoop with
  | true => rw [if_pos rfl, if_pos rfl, List.append_nil]; exact separator_of_bare w hc
  | false =>
    rw [if_neg Bool.false_ne_true, if_neg Bool.false_ne_true, List.append_nil]
    exact separator_of_closed w hc

end Writer

end TypeScribe

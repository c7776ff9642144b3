import TypeScribe.Proofs.WrittenLines

/-!
# Files at a level

A file that starts at a level is the file at the outermost level with the units of the level in front of every
line that is not empty. The rows are the same but for their levels. A row could come out empty at the outermost
level and hold spaces at another one only if its text was empty and stood at the outermost level itself, and no
text does.

* `CodeFile.rows_shift`: the rows of a file at a level.
* `CodeFile.renderAt_level`: the text of a file at a level, or its error.
-/

namespace TypeScribe

/-- Puts a lead in front of every line that is not empty. -/
def indentLines (lead text : String) : String :=
  String.ofList <| (pieces text.toList).flatMap fun piece =>
    if piece = ['\n'] then piece else lead.toList ++ piece

/-- A row some levels further in; an empty row is at no level. -/
def Row.shift (by' : Nat) : Row → Row
  | .bare => .bare
  | .at level text => .at (by' + level) text

/-! ## Rows -/

mutual

theorem Fragment.rows_shift (by' level : Nat) :
    ∀ f : Fragment, f.rows (by' + level) = (f.rows level).map (Row.shift by')
  | .line _ => by rw [Fragment.rows, Fragment.rows]; rfl
  | .blank => by rw [Fragment.rows, Fragment.rows]; rfl
  | .comment _ => by rw [Fragment.rows, Fragment.rows]; rfl
  | .sequence items => by rw [Fragment.rows, Fragment.rows, rowsOf_shift by' level items]
  | .block header body close => by
    have hclose : close.toList.map (Row.at (by' + level)) =
        (close.toList.map (Row.at level)).map (Row.shift by') := by
      rw [List.map_map]; rfl
    rw [Fragment.rows, Fragment.rows, List.map_cons, List.map_append, Nat.add_assoc,
      rowsOf_shift by' (level + 1) body, hclose]
    rfl

theorem rowsOf_shift (by' level : Nat) :
    ∀ fs : List Fragment, rowsOf (by' + level) fs = (rowsOf level fs).map (Row.shift by')
  | [] => by rw [rowsOf_nil, rowsOf_nil]; rfl
  | f :: rest => by
    rw [rowsOf_cons, rowsOf_cons, List.map_append, Fragment.rows_shift by' level f, rowsOf_shift by' level rest]

end

theorem Element.gap_shift (by' : Nat) (e : Element) : e.gap.map (Row.shift by') = e.gap := by
  unfold Element.gap
  split <;> rfl

theorem elementRows_shift (topLevel : Bool) (by' level : Nat) : ∀ es : List Element,
    elementRows topLevel (by' + level) es = (elementRows topLevel level es).map (Row.shift by')
  | [] => by rw [elementRows_nil, elementRows_nil]; rfl
  | [e] => by rw [elementRows, elementRows, rowsOf_shift]
  | e :: next :: rest => by
    rw [elementRows, elementRows, List.map_append, List.map_append, rowsOf_shift, Element.gap_shift,
      elementRows_shift topLevel by' level (next :: rest)]

/-- The rows of a file at a level are its rows at the outermost level, shifted. -/
theorem CodeFile.rows_shift (f : CodeFile) (level : Nat) : f.rows level = (f.rows 0).map (Row.shift level) := by
  have hbanner : bannerRows level f.banner = (bannerRows 0 f.banner).map (Row.shift level) :=
    rowsOf_shift level 0 _
  have hgap : bannerGap level f.banner f.elements =
      (bannerGap 0 f.banner f.elements).map (Row.shift level) := by
    unfold bannerGap
    simp only [hbanner, List.map_eq_nil_iff]
    split <;> rfl
  rw [rows, rows, List.map_append, List.map_append, ← hbanner, ← hgap, ← elementRows_shift, Nat.add_zero]

/-! ## Texts -/

theorem Indent.lead_add (indent : Indent) (a b : Nat) :
    indent.lead (a + b) = indent.lead a ++ indent.lead b := by
  rw [lead, lead, lead, ← String.join_append, List.replicate_append_replicate]

/-- A row further in is the line of the row after more units, unless the line is empty. -/
theorem Row.line_shift {row : Row} (h : row.Stands 0 false) (indent : Indent) (level : Nat) :
    (row.shift level).line indent =
      if row.line indent = "" then "" else indent.lead level ++ row.line indent := by
  cases row with
  | bare => rfl
  | «at» depth text =>
    show indent.lead (level + depth) ++ text = if indent.lead depth ++ text = "" then "" else _
    split
    · rename_i hempty
      obtain ⟨hlead, rfl⟩ := String.append_eq_empty_iff.mp hempty
      -- An empty text of code stands inside braces, so it is the unit that comes to nothing here.
      have hdepth : 0 < depth := (h.2.2 isBlank_empty).resolve_left Bool.false_ne_true
      have hunit := (Indent.lead_eq_empty_iff hdepth).mp hlead
      rw [(Indent.lead_eq_empty_iff (Nat.add_pos_right level hdepth)).mpr hunit, String.append_empty]
    · rw [Indent.lead_add, String.append_assoc]; rfl

/-- Leads in front of the lines of rows shift the rows. -/
theorem indentLines_rowsText {rows : List Row} (h : ∀ row ∈ rows, row.Stands 0 false) (indent : Indent)
    (level : Nat) : indentLines (indent.lead level) (rowsText indent rows) =
      rowsText indent (rows.map (Row.shift level)) := by
  have hcut := pieces_rowsText fun row hrow => (h row hrow).newline_not_mem indent
  apply String.toList_inj.mp
  rw [indentLines, String.toList_ofList, hcut, toList_rowsText, List.flatMap_map, List.flatMap_map,
    List.flatMap_def, List.flatMap_def]
  refine congrArg List.flatten (List.map_congr_left fun row hrow => ?_)
  have hempty : (row.line indent).toList ++ ['\n'] = ['\n'] ↔ row.line indent = "" := by
    rw [← String.toList_inj]
    simp
  rw [Row.line_shift (h row hrow)]
  simp only [hempty]
  split
  · rename_i hl
    rw [hl]
  · rw [String.toList_append, List.append_assoc]

/-! ## Files -/

/-- A file at a level fails exactly as it does at the outermost level, and otherwise comes to the same text with
the units of the level in front of every line that is not empty. -/
theorem CodeFile.renderAt_level (f : CodeFile) (hwords : SingleLineWords f.elements) (indent : Indent)
    (level : Nat) : f.renderAt indent level = (f.renderAt indent 0).map (indentLines (indent.lead level)) := by
  rw [render_eq, render_eq]
  cases hvalid : f.validate with
  | error err => rfl
  | ok _ =>
    show Except.ok (f.text indent level) = Except.ok (indentLines (indent.lead level) (f.text indent 0))
    rw [text_eq_rows, text_eq_rows, indentLines_rowsText (stands hvalid hwords 0), ← rows_shift]

/-- A banner over an object whose last value ends in an empty line: its units are all that the line holds. -/
theorem CodeFile.renderAt_level_object :
    SingleLineWords [.constDecl { name := "a", value := .object [⟨"x", .raw "1\n\n"⟩] }] ∧
      (CodeFile.mk (some "made") [.constDecl { name := "a", value := .object [⟨"x", .raw "1\n\n"⟩] }]).renderAt
          .tab 1 = .ok "\t// made\n\n\tconst a = \x7b\n\t\tx: 1\n\t\t\n\t\x7d;\n" :=
  ⟨by decide, (renderAt_level _ (by decide) .tab 1).trans rfl⟩

end TypeScribe

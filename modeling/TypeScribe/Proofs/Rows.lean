import TypeScribe.Layout.Writer

/-!
# Rows of code

What fragments come to at a level: rows, each of them empty or a text with the level that it stands at. A
writer does nothing but add the text of these rows, so that all that is said about laid out code is said about
lists of rows.

* `Writer.writeAll_eq_add`: fragments add the text of their rows at the level of the writer, and leave the
  level as it was.
-/

namespace TypeScribe

/-- One line of laid out code. -/
inductive Row where
  /-- An empty line. -/
  | bare
  /-- A text after the units of a level. -/
  | at (level : Nat) (text : String)
deriving DecidableEq, Repr

/-- How a row is written, with its line feed. -/
def Row.text (indent : Indent) : Row → String
  | .bare => "\n"
  | .at level text => indent.lead level ++ text ++ "\n"

/-- How rows are written. -/
def rowsText (indent : Indent) (rows : List Row) : String :=
  String.join (rows.map (Row.text indent))

mutual

/-- The rows of a fragment whose first line stands at a level. -/
def Fragment.rows (level : Nat) : Fragment → List Row
  | .line text => [.at level text]
  | .blank => [.bare]
  | .comment text => [.at level ("// " ++ text)]
  | .sequence items => rowsOf level items
  | .block header body close =>
    .at level header :: (rowsOf (level + 1) body ++ close.toList.map (.at level))

/-- The rows of fragments, one after the other. -/
def rowsOf (level : Nat) : List Fragment → List Row
  | [] => []
  | f :: rest => f.rows level ++ rowsOf level rest

end

variable {indent : Indent} {level : Nat}

@[simp] theorem rowsText_nil : rowsText indent [] = "" := rfl

@[simp] theorem rowsText_cons (row : Row) (rows : List Row) :
    rowsText indent (row :: rows) = row.text indent ++ rowsText indent rows := by
  rw [rowsText, List.map_cons, String.join_cons, ← rowsText]

@[simp] theorem rowsText_append (rows more : List Row) :
    rowsText indent (rows ++ more) = rowsText indent rows ++ rowsText indent more := by
  rw [rowsText, List.map_append, String.join_append, ← rowsText, ← rowsText]

theorem rowsText_singleton (row : Row) : rowsText indent [row] = row.text indent := by
  rw [rowsText_cons, rowsText_nil, String.append_empty]

theorem rowsText_bare : rowsText indent [.bare] = "\n" := by
  rw [rowsText_singleton, Row.text]

/-- Rows from the parts of a list are written part by part. -/
theorem rowsText_flatMap {α : Type} (rows : α → List Row) (parts : List α) :
    rowsText indent (parts.flatMap rows) = String.join (parts.map fun a => rowsText indent (rows a)) := by
  induction parts with
  | nil => rw [List.flatMap_nil, rowsText_nil, List.map_nil, String.join_nil]
  | cons a rest ih => rw [List.flatMap_cons, rowsText_append, ih, List.map_cons, String.join_cons]

/-- Rows are written as whole lines. -/
theorem rowsText_eq_empty_or_line (indent : Indent) (rows : List Row) :
    rowsText indent rows = "" ∨ ∃ init, rowsText indent rows = init ++ "\n" := by
  rcases List.eq_nil_or_concat rows with rfl | ⟨init, last, rfl⟩
  · exact .inl rowsText_nil
  · refine .inr ?_
    rw [List.concat_eq_append, rowsText_append, rowsText_singleton]
    cases last with
    | bare => exact ⟨rowsText indent init, rfl⟩
    | «at» level text =>
      exact ⟨rowsText indent init ++ (indent.lead level ++ text),
        by simp only [Row.text, String.append_assoc]⟩

@[simp] theorem rowsOf_nil : rowsOf level [] = [] := by
  rw [rowsOf]

@[simp] theorem rowsOf_cons (f : Fragment) (fs : List Fragment) :
    rowsOf level (f :: fs) = f.rows level ++ rowsOf level fs := by
  rw [rowsOf]

theorem rowsOf_singleton (f : Fragment) : rowsOf level [f] = f.rows level := by
  rw [rowsOf_cons, rowsOf_nil, List.append_nil]

@[simp] theorem rowsOf_append (fs gs : List Fragment) :
    rowsOf level (fs ++ gs) = rowsOf level fs ++ rowsOf level gs := by
  induction fs with
  | nil => rw [rowsOf_nil, List.nil_append, List.nil_append]
  | cons f fs ih => rw [List.cons_append, rowsOf_cons, rowsOf_cons, ih, List.append_assoc]

/-! ## Writing adds rows -/

namespace Writer

@[simp] theorem add_text (w : Writer) (t : String) : (w.add t).text = w.text ++ t := rfl

@[simp] theorem add_empty (w : Writer) : w.add "" = w := by
  rw [add, String.append_empty]

theorem add_add (w : Writer) (s t : String) : (w.add s).add t = w.add (s ++ t) := by
  simp only [add, String.append_assoc]

/-- A line is a row at the level of the writer. -/
theorem line_eq_add (w : Writer) (t : String) :
    w.line t = w.add (rowsText w.indent [.at w.level t]) := by
  rw [rowsText_singleton, Row.text, line]

/-- One level in and out again: what is added in between stays. -/
theorem shallower_add_deeper (w : Writer) (t : String) :
    (w.deeper.add t).shallower = w.add t := rfl

mutual

/-- A fragment adds the text of its rows. -/
theorem write_eq_add (w : Writer) : ∀ f : Fragment,
    w.write f = w.add (rowsText w.indent (f.rows w.level))
  | .line text => by rw [write, Fragment.rows, line_eq_add]
  | .blank => by rw [write, Fragment.rows]; rfl
  | .comment text => by rw [write, Fragment.rows, comment, line_eq_add]
  | .sequence items => by rw [write, Fragment.rows, writeAll_eq_add]
  | .block header body close => by
    have inner : ((w.line header).deeper.writeAll body).shallower =
        w.add (rowsText w.indent (.at w.level header :: rowsOf (w.level + 1) body)) := by
      rw [writeAll_eq_add, shallower_add_deeper, line_eq_add, add_add]
      exact congrArg w.add (rowsText_append _ _).symm
    cases close with
    | none => simp only [write, inner, Fragment.rows, Option.toList_none, List.map_nil, List.append_nil]
    | some text =>
      simp only [write, inner, Fragment.rows, Option.toList_some, List.map_cons, List.map_nil]
      rw [line_eq_add, add_add, ← List.cons_append, rowsText_append]; rfl

/-- Fragments add the text of their rows. -/
theorem writeAll_eq_add (w : Writer) : ∀ fs : List Fragment,
    w.writeAll fs = w.add (rowsText w.indent (rowsOf w.level fs))
  | [] => by rw [writeAll, rowsOf_nil, rowsText_nil, add_empty]
  | f :: rest => by
    rw [writeAll, write_eq_add w f, writeAll_eq_add, rowsOf_cons, rowsText_append, add_add]; rfl

end

end Writer

end TypeScribe

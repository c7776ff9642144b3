import TypeScribe.Proofs.Rows

/-!
# Runs of a writer

A writer is driven by calls, one after the other: single lines, separators, moves between levels, whole fragments.
A sheet is the same without text: rows below what stood there before, and the level of the next row. Whatever the
calls are, the writer writes what the sheet holds: every call adds its rows, at the level then in force, behind all
that was written, and only the moves change the level.

* `Writer.call_sheet`: one call to a writer is one call to a sheet.
* `Writer.run_sheet`: a run of calls adds the text of the rows of the calls.
-/

namespace TypeScribe

/-- A call to a writer. -/
inductive Call where
  | line (text : String)
  | comment (text : String)
  | blank
  | separator
  | deeper
  | shallower
  | write (f : Fragment)
  | writeAll (fs : List Fragment)
deriving Repr

/-- What a call makes of a writer. -/
def Writer.call (w : Writer) : Call → Writer
  | .line text => w.line text
  | .comment text => w.comment text
  | .blank => w.blank
  | .separator => w.separator
  | .deeper => w.deeper
  | .shallower => w.shallower
  | .write f => w.write f
  | .writeAll fs => w.writeAll fs

/-- Calls to a writer, one after the other. -/
def Writer.run (w : Writer) (calls : List Call) : Writer := calls.foldl Writer.call w

/-! ## Sheets -/

/-- Rows below a text that stood there before, and the level of the next row. -/
structure Sheet where
  opening : String
  level : Nat
  rows : List Row := []
deriving DecidableEq, Repr

/-- What stands on a sheet, written with some indentation. -/
def Sheet.text (s : Sheet) (indent : Indent) : String := s.opening ++ rowsText indent s.rows

/-- No empty line is wanted after a text: it is empty, or ends in two line feeds. -/
def IsSetOff (text : String) : Prop := text = "" ∨ ['\n', '\n'] <:+ text.toList

instance (text : String) : Decidable (IsSetOff text) := inferInstanceAs (Decidable (_ ∨ _))

namespace Call

/-- The rows of a call at a level, after a text. -/
def rows (before : String) (level : Nat) : Call → List Row
  | .line text => [.at level text]
  | .comment text => [.at level ("// " ++ text)]
  | .blank => [.bare]
  | .separator => if IsSetOff before then [] else [.bare]
  | .deeper | .shallower => []
  | .write f => f.rows level
  | .writeAll fs => rowsOf level fs

/-- The level after a call. -/
def levelAfter (level : Nat) : Call → Nat
  | .deeper => level + 1
  | .shallower => level - 1
  | .line _ | .comment _ | .blank | .separator | .write _ | .writeAll _ => level

end Call

namespace Sheet

/-- What a call makes of a sheet that is written with some indentation. -/
def call (indent : Indent) (s : Sheet) (c : Call) : Sheet where
  opening := s.opening
  level := c.levelAfter s.level
  rows := s.rows ++ c.rows (s.text indent) s.level

/-- Calls to a sheet, one after the other. -/
def run (indent : Indent) (s : Sheet) (calls : List Call) : Sheet := calls.foldl (call indent) s

/-- The writer that has written a sheet. -/
def written (indent : Indent) (s : Sheet) : Writer := ⟨indent, s.level, s.text indent⟩

theorem run_opening (indent : Indent) (s : Sheet) (calls : List Call) :
    (s.run indent calls).opening = s.opening := by
  induction calls generalizing s with
  | nil => rfl
  | cons c calls ih => exact ih (s.call indent c)

/-- Only the moves among the calls change the level. -/
theorem run_level (indent : Indent) (s : Sheet) (calls : List Call) :
    (s.run indent calls).level = calls.foldl Call.levelAfter s.level := by
  induction calls generalizing s with
  | nil => rfl
  | cons c calls ih => exact ih (s.call indent c)

end Sheet

/-! ## Writers and sheets -/

namespace Writer

/-- A separator adds an empty line exactly when one is wanted. -/
theorem separator_eq_add (w : Writer) :
    w.separator = w.add (rowsText w.indent (if IsSetOff w.text then [] else [.bare])) := by
  have hset : (w.text.isEmpty || w.endsWithBlank) = true ↔ IsSetOff w.text := by
    rw [Bool.or_eq_true, String.isEmpty_iff, endsWithBlank, List.isSuffixOf_iff_suffix, IsSetOff]
  unfold separator
  by_cases h : IsSetOff w.text
  · rw [if_pos (hset.mpr h), if_pos h, rowsText_nil, add_empty]
  · rw [if_neg (mt hset.mp h), if_neg h, rowsText_bare, blank]

/-- One call adds its rows at the level of the writer and moves the level. -/
theorem call_eq (w : Writer) (c : Call) :
    w.call c = { w.add (rowsText w.indent (c.rows w.text w.level)) with level := c.levelAfter w.level } := by
  cases c with
  | line text => exact line_eq_add w text
  | comment text => exact line_eq_add w ("// " ++ text)
  | blank => exact congrArg w.add rowsText_bare.symm
  | separator => exact separator_eq_add w
  | deeper => exact congrArg deeper (add_empty w).symm
  | shallower => exact congrArg shallower (add_empty w).symm
  | write f => exact write_eq_add w f
  | writeAll fs => exact writeAll_eq_add w fs

/-- One call to the writer of a sheet writes what the call makes of the sheet. -/
theorem call_sheet (indent : Indent) (s : Sheet) (c : Call) :
    (s.written indent).call c = (s.call indent c).written indent := by
  have htext : (s.call indent c).text indent =
      s.text indent ++ rowsText indent (c.rows (s.text indent) s.level) := by
    simp only [Sheet.text, Sheet.call, rowsText_append, String.append_assoc]
  rw [call_eq, Sheet.written, Sheet.written, htext]
  rfl

/-- A run of calls to the writer of a sheet writes what the calls make of the sheet. -/
theorem run_written (indent : Indent) (s : Sheet) (calls : List Call) :
    (s.written indent).run calls = (s.run indent calls).written indent := by
  induction calls generalizing s with
  | nil => rfl
  | cons c calls ih =>
    rw [run, List.foldl_cons, call_sheet]
    exact ih (s.call indent c)

/-- From any writer, a run of calls adds behind the text the rows of the calls, each call at the level then in force,
with an empty row for a separator exactly when the text so far is not empty and does not end in two line feeds. Only
the moves change the level. -/
theorem run_sheet (w : Writer) (calls : List Call) :
    let s := (Sheet.mk w.text w.level []).run w.indent calls
    (w.run calls).text = w.text ++ rowsText w.indent s.rows ∧ (w.run calls).level = s.level ∧
      s.level = calls.foldl Call.levelAfter w.level ∧ (w.run calls).indent = w.indent := by
  intro s
  have hw : (Sheet.mk w.text w.level []).written w.indent = w := by
    rw [Sheet.written, Sheet.text, rowsText_nil, String.append_empty]
  have hrun : w.run calls = s.written w.indent :=
    (congrArg (run · calls) hw.symm).trans (run_written w.indent _ calls)
  refine ⟨?_, congrArg Writer.level hrun, Sheet.run_level _ _ _, ?_⟩
  · rw [hrun, Sheet.written, Sheet.text, Sheet.run_opening]
  · rw [hrun, Sheet.written]

/-- A separator and a block in a run that moves out of the outermost level. -/
example :
    ((start .standard 0).run [.separator, .line "a;", .separator, .separator, .shallower,
      .write (.block "f() \x7b" [.line "b;"] (some "\x7d"))]).text =
      "a;\n\nf() \x7b\n  b;\n\x7d\n" := by decide +kernel

end Writer

end TypeScribe

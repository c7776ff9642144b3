import TypeScribe.Proofs.Calls
import TypeScribe.Proofs.Endings
import TypeScribe.Proofs.WrittenLines

/-!
# Separators and blank lines

Whether an empty line is wanted between two parts is asked in two ways: of the fragments that were written last, by
their shape, and of the text that came of them, by its last two characters. Where every line of the fragments ends
in a character of its own, the two give the same answer. And where moreover no fragment is an empty line, only
separators add empty lines, so that a run of calls never begins with one and never has two of them in a row.

* `Writer.endsWithBlank_writeAll`: a text after some fragments ends on an empty line when the fragments do.
* `IsSpaced`, `Writer.call_spaced`: what one call keeps of a text.
* `Writer.run_spaced`: what holds after every call of a run, and that a second separator in a row does nothing.
-/

namespace TypeScribe

mutual

/-- A fragment and the fragments in it, at any depth. -/
def Fragment.parts : Fragment → List Fragment
  | .line text => [.line text]
  | .blank => [.blank]
  | .comment text => [.comment text]
  | .sequence items => .sequence items :: partsOf items
  | .block header body close => .block header body close :: partsOf body

/-- Fragments and the fragments in them, at any depth. -/
def partsOf : List Fragment → List Fragment
  | [] => []
  | f :: rest => f.parts ++ partsOf rest

end

@[simp] theorem partsOf_nil : partsOf [] = [] := by
  rw [partsOf]

@[simp] theorem partsOf_cons (f : Fragment) (fs : List Fragment) : partsOf (f :: fs) = f.parts ++ partsOf fs := by
  rw [partsOf]

/-! ## Ends -/

/-- A fragment by itself, without those in it: it has a line to end on unless it is an empty line, and none of its
lines ends in a line feed. -/
def Fragment.EndsWell : Fragment → Prop
  | .line text => text ≠ "" ∧ ¬ ['\n'] <:+ text.toList
  | .blank => True
  | .comment text => ¬ ['\n'] <:+ text.toList
  | .sequence items => items ≠ []
  | .block header _ close =>
    (header ≠ "" ∧ ¬ ['\n'] <:+ header.toList) ∧ ∀ text ∈ close, text ≠ "" ∧ ¬ ['\n'] <:+ text.toList

instance (f : Fragment) : Decidable f.EndsWell :=
  match f with
  | .line text => inferInstanceAs (Decidable (text ≠ "" ∧ ¬ ['\n'] <:+ text.toList))
  | .blank => inferInstanceAs (Decidable True)
  | .comment text => inferInstanceAs (Decidable ¬ ['\n'] <:+ text.toList)
  | .sequence items => inferInstanceAs (Decidable (items ≠ []))
  | .block header _ close => inferInstanceAs (Decidable
      ((header ≠ "" ∧ ¬ ['\n'] <:+ header.toList) ∧ ∀ text ∈ close, text ≠ "" ∧ ¬ ['\n'] <:+ text.toList))

/-- How rows end: on an empty row, or on a text that does not end in a line feed. -/
def RowsEnd (blank : Bool) (rows : List Row) : Prop :=
  if blank then ∃ init, rows = init ++ [.bare] else Closed rows

theorem RowsEnd.append {blank : Bool} {rows : List Row} (before : List Row) (h : RowsEnd blank rows) :
    RowsEnd blank (before ++ rows) := by
  cases blank with
  | true =>
    obtain ⟨init, rfl⟩ := h
    exact ⟨before ++ init, (List.append_assoc ..).symm⟩
  | false => exact Closed.append before h

mutual

/-- The rows of a fragment end as the fragment tells. -/
theorem Fragment.rows_rowsEnd (level : Nat) :
    ∀ f : Fragment, (∀ g ∈ f.parts, g.EndsWell) → RowsEnd f.endsWithBlank (f.rows level)
  | .line text => by
    intro h
    obtain ⟨hne, hend⟩ : (Fragment.line text).EndsWell := h _ (by rw [Fragment.parts]; simp)
    rw [Fragment.endsWithBlank, Fragment.rows]
    exact closed_singleton (endsInk_of_not_newline hne hend)
  | .blank => by
    intro _
    rw [Fragment.endsWithBlank, Fragment.rows]
    exact ⟨[], rfl⟩
  | .comment text => by
    intro h
    have hend : (Fragment.comment text).EndsWell := h _ (by rw [Fragment.parts]; simp)
    rw [Fragment.endsWithBlank, Fragment.rows]
    exact closed_singleton (endsInk_comment hend)
  | .sequence items => by
    intro h
    rw [Fragment.parts, List.forall_mem_cons] at h
    rw [Fragment.endsWithBlank, Fragment.rows]
    exact rowsOf_rowsEnd level items h.1 h.2
  | .block header body close => by
    intro h
    rw [Fragment.parts, List.forall_mem_cons] at h
    obtain ⟨⟨⟨hne, hend⟩, hclose⟩, hbody⟩ := h
    rw [Fragment.rows]
    cases close with
    | some text =>
      obtain ⟨hne', hend'⟩ := hclose text rfl
      have htext : Closed [.at level text] := closed_singleton (endsInk_of_not_newline hne' hend')
      rw [Fragment.endsWithBlank, ← List.cons_append]
      exact htext.append _
    | none =>
      rw [Fragment.endsWithBlank, Option.toList_none, List.map_nil, List.append_nil]
      by_cases hempty : body = []
      · rw [hempty, rowsOf_nil]
        exact closed_singleton (endsInk_of_not_newline hne hend)
      · exact (rowsOf_rowsEnd (level + 1) body hempty hbody).append [.at level header]

/-- The rows of fragments end as the last fragment tells. -/
theorem rowsOf_rowsEnd (level : Nat) :
    ∀ fs : List Fragment, fs ≠ [] → (∀ g ∈ partsOf fs, g.EndsWell) → RowsEnd (endsWithBlank fs) (rowsOf level fs)
  | [] => fun hne => absurd rfl hne
  | [f] => by
    intro _ h
    rw [partsOf_cons, partsOf_nil, List.append_nil] at h
    rw [endsWithBlank_singleton, rowsOf_singleton]
    exact Fragment.rows_rowsEnd level f h
  | f :: next :: rest => by
    intro _ h
    rw [partsOf_cons, List.forall_mem_append] at h
    rw [endsWithBlank, rowsOf_cons]
    exact (rowsOf_rowsEnd level (next :: rest) (List.cons_ne_nil _ _) h.2).append _

end

/-- Rows behind a text that ends in a line feed end in one. -/
theorem newline_suffix_rows {text : String} (indent : Indent) (h : ['\n'] <:+ text.toList) (rows : List Row) :
    ['\n'] <:+ (text ++ rowsText indent rows).toList := by
  rw [String.toList_append]
  rcases rowsText_eq_empty_or_line indent rows with hrows | ⟨init, hrows⟩
  · rw [hrows, String.toList_empty, List.append_nil]
    exact h
  · rw [hrows, String.toList_append, ← List.append_assoc]
    exact List.suffix_append _ ['\n']

theorem two_newlines_suffix {cs : List Char} (h : ['\n'] <:+ cs) : ['\n', '\n'] <:+ cs ++ ['\n'] := by
  obtain ⟨init, rfl⟩ := h
  exact ⟨init, (List.append_assoc init ['\n'] ['\n']).symm⟩

theorem Writer.endsWithBlank_iff (w : Writer) : w.endsWithBlank = true ↔ ['\n', '\n'] <:+ w.text.toList := by
  rw [endsWithBlank, List.isSuffixOf_iff_suffix]

/-- Where no sequence of the fragments is empty, no line, header or closing line is empty, and none of these and no
comment ends in a line feed, a text that ends in a line feed ends on an empty line, after the fragments are written
behind it, exactly when the list of fragments says so. -/
theorem Writer.endsWithBlank_writeAll (w : Writer) (fs : List Fragment) (hne : fs ≠ [])
    (hfs : ∀ f ∈ partsOf fs, f.EndsWell) (hw : ['\n'] <:+ w.text.toList) :
    (w.writeAll fs).endsWithBlank = TypeScribe.endsWithBlank fs := by
  have hend := rowsOf_rowsEnd w.level fs hne hfs
  rw [writeAll_eq_add]
  cases hblank : TypeScribe.endsWithBlank fs with
  | true =>
    rw [hblank] at hend
    obtain ⟨init, hrows⟩ := hend
    have hinit := newline_suffix_rows w.indent hw init
    rw [endsWithBlank_iff, add_text, hrows, rowsText_append, rowsText_bare, ← String.append_assoc,
      String.toList_append]
    exact two_newlines_suffix hinit
  | false =>
    rw [hblank] at hend
    obtain ⟨s, hs, hink⟩ := Closed.text_eq w.indent hend
    rw [hs]
    exact endsWithBlank_add_ink w hink

/-- A block without a closing line, whose body ends in a sequence, behind a line at the outermost level. -/
theorem Writer.endsWithBlank_writeAll_open_block :
    let fs : List Fragment := [.block "if (a) \x7b" [.sequence [.comment "", .blank]] none]
    (∀ f ∈ partsOf fs, f.EndsWell) ∧
      ((Writer.mk (.spaces 0) 1 "a;\n").writeAll fs).endsWithBlank = TypeScribe.endsWithBlank fs := by
  intro fs
  have hfs : ∀ f ∈ partsOf fs, f.EndsWell := by decide +kernel
  exact ⟨hfs, endsWithBlank_writeAll _ fs (List.cons_ne_nil _ _) hfs ⟨['a', ';'], rfl⟩⟩

/-! ## Runs -/

/-- A fragment by itself, without those in it: it is no empty line, no line of it is empty, and no text of it holds a
line feed. -/
def Fragment.IsSolid : Fragment → Prop
  | .line text => text ≠ "" ∧ '\n' ∉ text.toList
  | .blank => False
  | .comment text => '\n' ∉ text.toList
  | .sequence _ => True
  | .block header _ close =>
    (header ≠ "" ∧ '\n' ∉ header.toList) ∧ ∀ text ∈ close, text ≠ "" ∧ '\n' ∉ text.toList

instance (f : Fragment) : Decidable f.IsSolid :=
  match f with
  | .line text => inferInstanceAs (Decidable (text ≠ "" ∧ '\n' ∉ text.toList))
  | .blank => inferInstanceAs (Decidable False)
  | .comment text => inferInstanceAs (Decidable ('\n' ∉ text.toList))
  | .sequence _ => inferInstanceAs (Decidable True)
  | .block header _ close => inferInstanceAs (Decidable
      ((header ≠ "" ∧ '\n' ∉ header.toList) ∧ ∀ text ∈ close, text ≠ "" ∧ '\n' ∉ text.toList))

/-- The fragments that a call writes. -/
def Call.fragments : Call → List Fragment
  | .line text => [.line text]
  | .comment text => [.comment text]
  | .blank => [.blank]
  | .separator | .deeper | .shallower => []
  | .write f => [f]
  | .writeAll fs => fs

/-- Every call but a separator has the rows of the fragments that it writes. -/
theorem Call.rows_of_ne_separator {c : Call} (h : c ≠ .separator) (before : String) (level : Nat) :
    c.rows before level = rowsOf level c.fragments := by
  cases c with
  | separator => exact absurd rfl h
  | line text => rw [rows, fragments, rowsOf_singleton, Fragment.rows]
  | comment text => rw [rows, fragments, rowsOf_singleton, Fragment.rows]
  | blank => rw [rows, fragments, rowsOf_singleton, Fragment.rows]
  | deeper => rw [rows, fragments, rowsOf_nil]
  | shallower => rw [rows, fragments, rowsOf_nil]
  | write f => rw [rows, fragments, rowsOf_singleton]
  | writeAll fs => rw [rows, fragments]

/-- A text that does not begin with a line feed and never has three of them in a row, and that ends in one unless it
is empty. -/
structure IsSpaced (text : String) : Prop where
  head : text.toList.head? ≠ some '\n'
  inner : ¬ ['\n', '\n', '\n'] <:+: text.toList
  last : text = "" ∨ ['\n'] <:+ text.toList

/-- A row with a text of its own, all in one line. -/
def Row.IsSolid : Row → Prop
  | .bare => False
  | .at _ text => text ≠ "" ∧ '\n' ∉ text.toList

mutual

theorem Fragment.rows_solid (level : Nat) :
    ∀ f : Fragment, (∀ g ∈ f.parts, g.IsSolid) → ∀ row ∈ f.rows level, row.IsSolid
  | .line text => by
    intro h
    rw [Fragment.parts, List.forall_mem_singleton] at h
    rw [Fragment.rows, List.forall_mem_singleton]
    exact h
  | .blank => by
    intro h
    rw [Fragment.parts, List.forall_mem_singleton] at h
    exact absurd h not_false
  | .comment text => by
    intro h
    rw [Fragment.parts, List.forall_mem_singleton] at h
    have hfree : '\n' ∉ text.toList := h
    rw [Fragment.rows, List.forall_mem_singleton]
    exact ⟨by simp, by simp [hfree]⟩
  | .sequence items => by
    intro h
    rw [Fragment.parts, List.forall_mem_cons] at h
    rw [Fragment.rows]
    exact rowsOf_solid level items h.2
  | .block header body close => by
    intro h
    rw [Fragment.parts, List.forall_mem_cons] at h
    obtain ⟨⟨hheader, hclose⟩, hbody⟩ := h
    rw [Fragment.rows, List.forall_mem_cons, List.forall_mem_append, List.forall_mem_map]
    exact ⟨hheader, rowsOf_solid (level + 1) body hbody, fun text htext => hclose text (Option.mem_toList.mp htext)⟩

theorem rowsOf_solid (level : Nat) :
    ∀ fs : List Fragment, (∀ g ∈ partsOf fs, g.IsSolid) → ∀ row ∈ rowsOf level fs, row.IsSolid
  | [] => by
    intro _ row hrow
    rw [rowsOf_nil] at hrow
    exact absurd hrow List.not_mem_nil
  | f :: rest => by
    intro h
    rw [partsOf_cons, List.forall_mem_append] at h
    rw [rowsOf_cons, List.forall_mem_append]
    exact ⟨Fragment.rows_solid level f h.1, rowsOf_solid level rest h.2⟩

end

/-- Three line feeds in a row come about only by one more after two. -/
theorem three_newlines_concat_iff (cs : List Char) (c : Char) :
    ['\n', '\n', '\n'] <:+: cs ++ [c] ↔ ['\n', '\n', '\n'] <:+: cs ∨ c = '\n' ∧ ['\n', '\n'] <:+ cs := by
  rw [List.infix_concat_iff, or_comm]
  refine or_congr_right ?_
  constructor
  · rintro ⟨init, hinit⟩
    obtain ⟨hcs, hc⟩ := List.append_inj' (show (init ++ ['\n', '\n']) ++ ['\n'] = cs ++ [c] by simpa using hinit) rfl
    exact ⟨(List.singleton_inj.mp hc).symm, init, hcs⟩
  · rintro ⟨rfl, init, rfl⟩
    exact ⟨init, by simp⟩

/-- Characters that are no line feeds bring no line feeds together. -/
theorem three_newlines_append {cs : List Char} (h : ¬ ['\n', '\n', '\n'] <:+: cs) {more : List Char}
    (hmore : '\n' ∉ more) : ¬ ['\n', '\n', '\n'] <:+: cs ++ more := by
  induction more generalizing cs with
  | nil => rwa [List.append_nil]
  | cons c more ih =>
    rw [List.mem_cons, not_or] at hmore
    have hnext : ¬ ['\n', '\n', '\n'] <:+: cs ++ [c] := by
      rw [three_newlines_concat_iff, not_or]
      exact ⟨h, fun hc => hmore.1 hc.1.symm⟩
    have hall := ih hnext hmore.2
    rwa [List.append_assoc] at hall

namespace IsSpaced

theorem empty : IsSpaced "" := ⟨by simp, by simp, .inl rfl⟩

/-- A row with a text of its own may follow anything. -/
theorem row {text : String} (h : IsSpaced text) (indent : Indent) {row : Row} (hrow : row.IsSolid) :
    IsSpaced (text ++ row.text indent) := by
  cases row with
  | bare => exact absurd hrow not_false
  | «at» level line =>
    obtain ⟨hne, hfree⟩ := hrow
    have hline : '\n' ∉ (indent.lead level ++ line).toList := by
      rw [String.toList_append, List.mem_append, not_or]
      exact ⟨Indent.not_mem_lead (by decide) (by decide), hfree⟩
    have hlineNe : (indent.lead level ++ line).toList ≠ [] := by
      rw [Ne, String.toList_eq_nil_iff, String.append_eq_empty_iff]
      exact fun hempty => hne hempty.2
    have hink : EndsInk line :=
      endsInk_of_not_newline hne fun hsuffix => hfree (hsuffix.subset (List.mem_singleton_self _))
    have hend : ¬ ['\n'] <:+ text.toList ++ (indent.lead level ++ line).toList := by
      rw [← String.toList_append]
      exact ((hink.append (indent.lead level)).append text).not_newline_suffix
    have htext : (text ++ (Row.at level line).text indent).toList =
        text.toList ++ (indent.lead level ++ line).toList ++ ['\n'] := by
      rw [Row.text, String.toList_append, String.toList_append, List.append_assoc]; rfl
    refine ⟨fun hhead => ?_, ?_, .inr ?_⟩
    · rw [htext, List.append_assoc, List.head?_append, Option.or_eq_some_iff, List.head?_append,
        Option.or_eq_some_iff] at hhead
      rcases hhead with hhead | ⟨-, hhead | ⟨hnone, -⟩⟩
      · exact h.head hhead
      · exact hline (List.mem_of_mem_head? hhead)
      · exact hlineNe (List.head?_eq_none_iff.mp hnone)
    · rw [htext, three_newlines_concat_iff, not_or]
      refine ⟨three_newlines_append h.inner hline, fun htwo => hend ?_⟩
      exact (List.suffix_append ['\n'] ['\n']).trans htwo.2
    · rw [htext]
      exact List.suffix_append _ ['\n']

theorem rows {text : String} (h : IsSpaced text) (indent : Indent) {rows : List Row}
    (hrows : ∀ row ∈ rows, row.IsSolid) : IsSpaced (text ++ rowsText indent rows) := by
  induction rows generalizing text with
  | nil => rwa [rowsText_nil, String.append_empty]
  | cons row rows ih =>
    rw [List.forall_mem_cons] at hrows
    rw [rowsText_cons, ← String.append_assoc]
    exact ih (h.row indent hrows.1) hrows.2

/-- An empty line where one is wanted. -/
theorem separator {text : String} (h : IsSpaced text) (hset : ¬ IsSetOff text) : IsSpaced (text ++ "\n") := by
  rw [IsSetOff, not_or] at hset
  have htext : (text ++ "\n").toList = text.toList ++ ['\n'] := String.toList_append
  refine ⟨?_, ?_, .inr ?_⟩
  · rw [htext, List.head?_append, Ne, Option.or_eq_some_iff, List.head?_eq_none_iff, String.toList_eq_nil_iff]
    exact fun hhead => hhead.elim h.head fun hempty => hset.1 hempty.1
  · rw [htext, three_newlines_concat_iff, not_or]
    exact ⟨h.inner, fun hend => hset.2 hend.2⟩
  · rw [htext]
    exact List.suffix_append _ ['\n']

end IsSpaced

namespace Writer

/-- One call that writes no empty line by itself. -/
theorem call_spaced {w : Writer} (hw : IsSpaced w.text) (c : Call)
    (hc : ∀ f ∈ partsOf c.fragments, f.IsSolid) : IsSpaced (w.call c).text := by
  rw [call_eq]
  show IsSpaced (w.text ++ rowsText w.indent (c.rows w.text w.level))
  by_cases hseparator : c = .separator
  · rw [hseparator, Call.rows]
    split
    · rw [rowsText_nil, String.append_empty]
      exact hw
    · rename_i hset
      rw [rowsText_bare]
      exact hw.separator hset
  · rw [Call.rows_of_ne_separator hseparator]
    exact hw.rows w.indent (rowsOf_solid w.level c.fragments hc)

/-- A run of calls that write no empty lines by themselves. -/
theorem run_spaced_from {w : Writer} (hw : IsSpaced w.text) (calls : List Call)
    (hcalls : ∀ c ∈ calls, ∀ f ∈ partsOf c.fragments, f.IsSolid) : IsSpaced (w.run calls).text := by
  induction calls generalizing w with
  | nil => exact hw
  | cons c calls ih =>
    rw [List.forall_mem_cons] at hcalls
    exact ih (call_spaced hw c hcalls.1) hcalls.2

theorem run_append (w : Writer) (calls more : List Call) : w.run (calls ++ more) = (w.run calls).run more :=
  List.foldl_append

/-- A second separator in a row does nothing. -/
theorem separator_separator {w : Writer} (hw : w.text = "" ∨ ['\n'] <:+ w.text.toList) :
    w.separator.separator = w.separator := by
  have hset : IsSetOff w.separator.text := by
    rw [separator_eq_add, add_text]
    split
    · rename_i hset
      rw [rowsText_nil, String.append_empty]
      exact hset
    · rename_i hset
      rw [IsSetOff, not_or] at hset
      rw [rowsText_bare, IsSetOff, String.toList_append]
      exact .inr (two_newlines_suffix (hw.resolve_left hset.1))
  rw [separator_eq_add w.separator, if_pos hset, rowsText_nil, add_empty]

/-- After every call of a run from the beginning, in which no fragment is an empty line, no line, header or closing
line is empty and no text holds a line feed, the text does not begin with a line feed, never has three of them in a
row, and ends in one unless it is empty. And one more separator right after a separator of the run makes no
difference to the writer from there on. -/
theorem run_spaced (indent : Indent) (level : Nat) (calls : List Call)
    (hcalls : ∀ c ∈ calls, ∀ f ∈ partsOf c.fragments, f.IsSolid) :
    (∀ n, IsSpaced ((start indent level).run (calls.take n)).text) ∧
      ∀ before after, calls = before ++ .separator :: after → ∀ n,
        (start indent level).run (before ++ .separator :: .separator :: after.take n) =
          (start indent level).run (before ++ .separator :: after.take n) := by
  have hspaced : ∀ {some : List Call}, (∀ c ∈ some, c ∈ calls) → IsSpaced ((start indent level).run some).text :=
    fun hsome => run_spaced_from .empty _ fun c hc => hcalls c (hsome c hc)
  refine ⟨fun n => hspaced fun c hc => List.mem_of_mem_take hc, ?_⟩
  rintro before after rfl n
  have hbefore := hspaced fun c (hc : c ∈ before) => List.mem_append_left _ hc
  rw [run_append, run_append]
  show ((((start indent level).run before).separator).separator).run (after.take n) =
    (((start indent level).run before).separator).run (after.take n)
  rw [separator_separator hbefore.last]

/-- A block without a closing line, one level further in, between two separators. -/
theorem run_spaced_open_block :
    let calls : List Call := [.separator, .line "a;", .separator, .deeper,
      .write (.block "f() \x7b" [.sequence [], .comment ""] none), .separator]
    (∀ c ∈ calls, ∀ f ∈ partsOf c.fragments, f.IsSolid) ∧
      ((start .tab 1).run calls).text = "\ta;\n\n\t\tf() \x7b\n\t\t\t// \n\n" ∧
      IsSpaced ((start .tab 1).run calls).text ∧
      (start .tab 1).run [.separator, .line "a;", .separator, .separator, .deeper] =
        (start .tab 1).run [.separator, .line "a;", .separator, .deeper] := by
  intro calls
  have hcalls : ∀ c ∈ calls, ∀ f ∈ partsOf c.fragments, f.IsSolid := by decide +kernel
  obtain ⟨hspaced, hagain⟩ := run_spaced .tab 1 calls hcalls
  exact ⟨hcalls, by decide +kernel, hspaced 6, hagain [.separator, .line "a;"] _ rfl 1⟩

end Writer

end TypeScribe

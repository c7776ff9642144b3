import TypeScribe.Proofs.FileRows

/-!
# Spliced texts

A verbatim text that is spliced between a head and a tail comes out as it stands, line by line. All that changes is how
its lines end, and that a line of spaces between the first and the last one becomes empty: nothing of the text is lost,
nothing is added, and the lines keep their order.

* `intercalate_splitLines`: the lines of a text, joined, are the text with plain line feeds and none at its end.
* `tidied`: what is left of a text when it is spliced.
* `lineText?_spliceRest`: the lines after the first, and what they come to when they are joined.
* `splice_lossless`: a spliced text, line by line and joined.
-/

namespace TypeScribe

/-- A text without the carriage return that stands right before a line feed. -/
def withoutReturns : List Char → List Char
  | [] => []
  | '\r' :: '\n' :: rest => '\n' :: withoutReturns rest
  | c :: rest => c :: withoutReturns rest

/-- A text without the line feed at its end, if there is one. -/
def withoutLastNewline (cs : List Char) : List Char :=
  if cs.getLast? = some '\n' then cs.dropLast else cs

/-- Lines of which those that hold spaces only are empty, except for the first one and the last one. -/
def emptied (rows : List String) : List String :=
  rows.mapIdx fun i row => if 0 < i ∧ i + 1 < rows.length ∧ isBlank row = true then "" else row

/-- A text with plain line feeds and none at its end, in which lines of spaces between the first and the last one are
empty. -/
def tidied (text : String) : String :=
  "\n".intercalate (emptied (((withoutLastNewline (withoutReturns text.toList)).splitOn '\n').map String.ofList))

/-- The line that a fragment is, if it is a line or an empty line. -/
def Fragment.lineText? : Fragment → Option String
  | .line text => some text
  | .blank => some ""
  | .block .. | .sequence _ | .comment _ => none

/-! ## Lines of a text -/

theorem withoutReturns_cons {c : Char} {rest : List Char} (h : c = '\r' → ∀ more, rest ≠ '\n' :: more) :
    withoutReturns (c :: rest) = c :: withoutReturns rest := by
  rw [withoutReturns]
  exact fun more hc hr => h hc more hr

theorem withoutReturns_eq_nil_iff {cs : List Char} : withoutReturns cs = [] ↔ cs = [] := by
  fun_cases withoutReturns cs <;> simp

/-- Of a text with something behind its first character, the line feed at the end is that of the rest. -/
theorem withoutLastNewline_cons {c : Char} {cs : List Char} (h : cs ≠ []) :
    withoutLastNewline (c :: cs) = c :: withoutLastNewline cs := by
  obtain ⟨d, rest, rfl⟩ := List.exists_cons_of_ne_nil h
  rw [withoutLastNewline, withoutLastNewline, List.getLast?_cons_cons, List.dropLast_cons_cons]
  split <;> rfl

theorem consLine_ne_nil (c : Char) (rows : List (List Char)) : consLine c rows ≠ [] := by
  cases rows <;> exact List.cons_ne_nil _ _

theorem splitLines_eq_nil_iff {cs : List Char} : splitLines cs = [] ↔ cs = [] := by
  fun_cases splitLines cs with
  | case1 => simp
  | case2 rest => simp
  | case3 rest => simp
  | case4 c rest => simp [consLine_ne_nil]

/-- The lines of a text, joined, are the text with plain line feeds and without the last of them. -/
theorem intercalate_splitLines (cs : List Char) :
    ['\n'].intercalate (splitLines cs) = withoutLastNewline (withoutReturns cs) := by
  have newline_cons : ∀ {rest : List Char},
      ['\n'].intercalate (splitLines rest) = withoutLastNewline (withoutReturns rest) →
      ['\n'].intercalate ([] :: splitLines rest) = withoutLastNewline ('\n' :: withoutReturns rest) := by
    intro rest ih
    cases hrest : splitLines rest with
    | nil =>
      obtain rfl := splitLines_eq_nil_iff.mp hrest
      rfl
    | cons row rows =>
      have hne : withoutReturns rest ≠ [] := fun h =>
        List.cons_ne_nil row rows (hrest ▸ splitLines_eq_nil_iff.mpr (withoutReturns_eq_nil_iff.mp h))
      rw [List.intercalate_cons_cons, ← hrest, ih, withoutLastNewline_cons hne]
      rfl
  fun_induction splitLines cs with
  | case1 => rfl
  | case2 rest ih => exact newline_cons ih
  | case3 rest ih => exact newline_cons ih
  | case4 c rest hc hr ih =>
    rw [withoutReturns_cons fun h more hm => hr more h hm]
    cases hrest : splitLines rest with
    | nil =>
      obtain rfl := splitLines_eq_nil_iff.mp hrest
      have hlast : [c].getLast? ≠ some '\n' := fun h => hc (Option.some.inj h)
      rw [consLine, List.intercalate_singleton, withoutReturns, withoutLastNewline, if_neg hlast]
    | cons row rows =>
      have hne : withoutReturns rest ≠ [] := fun h =>
        List.cons_ne_nil row rows (hrest ▸ splitLines_eq_nil_iff.mpr (withoutReturns_eq_nil_iff.mp h))
      rw [withoutLastNewline_cons hne, ← ih, hrest, consLine]
      cases rows with
      | nil => rw [List.intercalate_singleton, List.intercalate_singleton]
      | cons next rows => rw [List.intercalate_cons_cons, List.intercalate_cons_cons]; rfl

/-- The lines of a text that is not empty are what its line feeds cut it into. -/
theorem splitOn_lines {text : String} (h : text ≠ "") :
    ((withoutLastNewline (withoutReturns text.toList)).splitOn '\n').map String.ofList = lines text := by
  have hne : splitLines text.toList ≠ [] := mt splitLines_eq_nil_iff.mp (mt String.toList_eq_nil_iff.mp h)
  rw [← intercalate_splitLines, List.splitOn_intercalate '\n' (newline_not_mem_splitLines _) hne, lines]

/-! ## Lines of a spliced text -/

theorem newline_not_mem_append {s t : String} (hs : '\n' ∉ s.toList) (ht : '\n' ∉ t.toList) :
    '\n' ∉ (s ++ t).toList := by
  rw [String.toList_append, List.mem_append, not_or]
  exact ⟨hs, ht⟩

/-- A line as it comes out between the first and the last one. -/
theorem lineText?_ofLine (row : String) :
    (Fragment.ofLine row).lineText? = some (if isBlank row = true then "" else row) := by
  rw [Fragment.ofLine]
  split <;> rfl

/-- Lines of which those that hold spaces only are empty, except for the last one. -/
def emptiedButLast (rows : List String) : List String :=
  rows.mapIdx fun i row => if i + 1 < rows.length ∧ isBlank row = true then "" else row

theorem emptied_cons (first : String) (rest : List String) :
    emptied (first :: rest) = first :: emptiedButLast rest := by
  rw [emptied, List.mapIdx_cons, if_neg (fun h => Nat.lt_irrefl 0 h.1)]
  simp only [Nat.zero_lt_succ, true_and, List.length_cons, Nat.add_lt_add_iff_right, emptiedButLast]

theorem emptiedButLast_singleton (last : String) : emptiedButLast [last] = [last] := by
  rw [emptiedButLast, List.mapIdx_cons, if_neg (fun h => Nat.lt_irrefl 1 h.1), List.mapIdx_nil]

theorem emptiedButLast_cons (row next : String) (rest : List String) :
    emptiedButLast (row :: next :: rest) =
      (if isBlank row = true then "" else row) :: emptiedButLast (next :: rest) := by
  rw [emptiedButLast, List.mapIdx_cons, emptiedButLast]
  simp only [Nat.zero_lt_succ, true_and, List.length_cons, Nat.add_lt_add_iff_right]

theorem emptiedButLast_ne_nil {rows : List String} (h : rows ≠ []) : emptiedButLast rows ≠ [] :=
  mt List.mapIdx_eq_nil_iff.mp h

/-- The lines after the first come out empty if they hold spaces only, up to the last one, which comes out with the tail
behind it. -/
theorem lineText?_spliceRest {tail : String} (htail : '\n' ∉ tail.toList) {rest : List String} (hne : rest ≠ [])
    (hrest : ∀ row ∈ rest, '\n' ∉ row.toList) :
    ∃ rows, (spliceRest tail rest).map Fragment.lineText? = rows.map some ∧ rows ≠ [] ∧
      (∀ row ∈ rows, '\n' ∉ row.toList) ∧
      "\n".intercalate rows = "\n".intercalate (emptiedButLast rest) ++ tail := by
  fun_induction spliceRest tail rest with
  | case1 => exact absurd rfl hne
  | case2 last =>
    have hlast : '\n' ∉ (last ++ tail).toList := newline_not_mem_append (hrest last List.mem_cons_self) htail
    refine ⟨[last ++ tail], rfl, List.cons_ne_nil _ _, fun row h => List.mem_singleton.mp h ▸ hlast, ?_⟩
    rw [emptiedButLast_singleton, String.intercalate_singleton, String.intercalate_singleton]
  | case3 row next rest ih =>
    rw [List.forall_mem_cons] at hrest
    obtain ⟨rows, htexts, hrows, hline, hjoined⟩ := ih (List.cons_ne_nil _ _) hrest.2
    have hrow : '\n' ∉ (if isBlank row = true then "" else row).toList := by
      split
      · exact List.not_mem_nil
      · exact hrest.1
    refine ⟨_ :: rows, ?_, List.cons_ne_nil _ _, List.forall_mem_cons.mpr ⟨hrow, hline⟩, ?_⟩
    · rw [List.map_cons, htexts, lineText?_ofLine]; rfl
    · rw [String.intercalate_cons_of_ne_nil hrows, hjoined, emptiedButLast_cons,
        String.intercalate_cons_of_ne_nil (emptiedButLast_ne_nil (List.cons_ne_nil _ _))]
      simp only [String.append_assoc]

theorem tidied_of_ne_empty {text : String} (h : text ≠ "") : tidied text = "\n".intercalate (emptied (lines text)) := by
  rw [tidied, splitOn_lines h]

theorem tidied_empty : tidied "" = "" := rfl

/-- A text that is spliced between a head and a tail comes out line by line. -/
theorem lineText?_splice {head tail : String} (hhead : '\n' ∉ head.toList) (htail : '\n' ∉ tail.toList)
    (text : String) : ∃ rows, (splice head text tail).map Fragment.lineText? = rows.map some ∧
      (∀ row ∈ rows, '\n' ∉ row.toList) ∧ "\n".intercalate rows = head ++ tidied text ++ tail := by
  have hfree : ∀ line ∈ lines text, '\n' ∉ line.toList := fun line => newline_not_mem_lines
  rw [splice]
  cases hlines : lines text with
  | nil =>
    have hempty : text = "" := by
      rw [lines, List.map_eq_nil_iff, splitLines_eq_nil_iff, String.toList_eq_nil_iff] at hlines
      exact hlines
    have hrow := newline_not_mem_append hhead htail
    refine ⟨[head ++ tail], rfl, fun row h => List.mem_singleton.mp h ▸ hrow, ?_⟩
    rw [hempty, tidied_empty, String.append_empty, String.intercalate_singleton]
  | cons first rest =>
    have hne : text ≠ "" := by
      rintro rfl
      exact List.cons_ne_nil _ _ hlines.symm
    rw [hlines, List.forall_mem_cons] at hfree
    rw [tidied_of_ne_empty hne, hlines, emptied_cons]
    cases rest with
    | nil =>
      have hrow := newline_not_mem_append (newline_not_mem_append hhead hfree.1) htail
      refine ⟨[head ++ first ++ tail], rfl, fun row h => List.mem_singleton.mp h ▸ hrow, ?_⟩
      rw [String.intercalate_singleton]; rfl
    | cons next rest =>
      have hrest : next :: rest ≠ [] := List.cons_ne_nil _ _
      obtain ⟨rows, htexts, hrows_ne, hrows, hjoined⟩ := lineText?_spliceRest htail hrest hfree.2
      have hrow := newline_not_mem_append hhead hfree.1
      refine ⟨(head ++ first) :: rows, ?_, List.forall_mem_cons.mpr ⟨hrow, hrows⟩, ?_⟩
      · rw [List.map_cons, htexts]; rfl
      · rw [String.intercalate_cons_of_ne_nil hrows_ne, hjoined,
          String.intercalate_cons_of_ne_nil (emptiedButLast_ne_nil hrest)]
        simp only [String.append_assoc]

/-- A text that is spliced between a head and a tail without line feeds comes out as lines and empty lines without line
feeds: as many as it has lines, but one at least. Joined they are the text between the head and the tail, with plain
line feeds, without the one at its end, and with empty lines for those between the first and the last one that hold
spaces only. -/
theorem splice_lossless (head text tail : String) (hhead : '\n' ∉ head.toList) (htail : '\n' ∉ tail.toList) :
    ∃ rows, (splice head text tail).map Fragment.lineText? = rows.map some ∧
      rows.length = max 1 (lines text).length ∧ (∀ row ∈ rows, '\n' ∉ row.toList) ∧
      "\n".intercalate rows = head ++ tidied text ++ tail := by
  obtain ⟨rows, htexts, hfree, hjoined⟩ := lineText?_splice hhead htail text
  refine ⟨rows, htexts, ?_, hfree, hjoined⟩
  rw [← splice_length head text tail, ← List.length_map (f := some), ← htexts, List.length_map]

/-- A text with a line end of two characters, a line of spaces in the middle, a last line of spaces and a line feed at
its end: the line in the middle comes out empty, and the last one stands as it is in front of the tail. -/
theorem splice_lossless_blank_lines :
    '\n' ∉ "x = ".toList ∧ '\n' ∉ ",".toList ∧
      ∃ rows, (splice "x = " "[\r\n \n]\n \n" ",").map Fragment.lineText? = rows.map some ∧ rows.length = 4 ∧
        "\n".intercalate rows = "x = [\n\n]\n ," := by
  have hhead : '\n' ∉ "x = ".toList := by decide
  have htail : '\n' ∉ ",".toList := by decide
  obtain ⟨rows, htexts, hlength, -, hjoined⟩ := splice_lossless "x = " "[\r\n \n]\n \n" "," hhead htail
  exact ⟨hhead, htail, rows, htexts, hlength.trans (by decide), hjoined.trans (by decide)⟩

end TypeScribe

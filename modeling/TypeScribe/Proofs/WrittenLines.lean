import TypeScribe.Proofs.Shapes

/-!
# Lines of written code

A text that is written has lines of its own, cut at its line feeds. As long as no word of the elements holds a
line feed, these are the rows of the file one by one, each after the units of its level.

* `Code.stands`: the rows of code hold no line feed, and a blank one stands deeper than the code.
* `CodeFile.stands`: the rows of a file that lacks nothing.
* `writtenLines_rowsText`: the lines of the text of rows are the rows.
-/

namespace TypeScribe

/-- The lines of a text, cut at every line feed. A line feed at the end opens no further line. -/
def writtenLines (text : String) : List String :=
  (pieces text.toList).map fun piece => String.ofList (piece.filter (· != '\n'))

/-- Names, keys, parameters, conditions, clauses and all other texts within a line hold no line feed. -/
def SingleLineWords (es : List Element) : Prop :=
  ∀ p ∈ texts es, p.isWord = true → '\n' ∉ p.text.toList

instance (es : List Element) : Decidable (SingleLineWords es) :=
  inferInstanceAs (Decidable (∀ p ∈ texts es, p.isWord = true → '\n' ∉ p.text.toList))

/-! ## Rows without line feeds -/

/-- A row as a line of the text. -/
def Row.line (indent : Indent) : Row → String
  | .bare => ""
  | .at level text => indent.lead level ++ text

theorem Row.text_eq_line (indent : Indent) (row : Row) : row.text indent = row.line indent ++ "\n" := by
  cases row with
  | bare => rfl
  | «at» level text => rfl

/-- The characters of the text of rows are those of their lines, each with a line feed after it. -/
theorem toList_rowsText (indent : Indent) (rows : List Row) :
    (rowsText indent rows).toList = rows.flatMap fun row => (row.line indent).toList ++ ['\n'] := by
  rw [rowsText, String.toList_join, List.flatMap_map]
  refine congrArg (rows.flatMap ·) (funext fun row => ?_)
  rw [Row.text_eq_line, String.toList_append]; rfl

/-- Units of indentation are spaces or tabs. -/
theorem Indent.mem_lead {indent : Indent} {level : Nat} {c : Char} (h : c ∈ (indent.lead level).toList) :
    c = ' ' ∨ c = '\t' := by
  rw [Indent.lead, String.toList_join, List.mem_flatMap] at h
  obtain ⟨unit, hunit, hc⟩ := h
  rw [(List.mem_replicate.mp hunit).2] at hc
  cases indent with
  | spaces count =>
    rw [Indent.unit, String.toList_ofList] at hc
    exact .inl (List.mem_replicate.mp hc).2
  | tab => exact .inr (List.mem_singleton.mp hc)

theorem Indent.not_mem_lead {indent : Indent} {level : Nat} {c : Char} (hs : c ≠ ' ') (ht : c ≠ '\t') :
    c ∉ (indent.lead level).toList :=
  fun h => (Indent.mem_lead h).elim hs ht

/-- The units of a level come to nothing exactly when one unit does. -/
theorem Indent.lead_eq_empty_iff {indent : Indent} {level : Nat} (hpos : 0 < level) :
    indent.lead level = "" ↔ indent.unit = "" := by
  obtain ⟨below, rfl⟩ := Nat.exists_eq_add_of_lt hpos
  rw [Nat.zero_add]
  refine ⟨fun h => ?_, fun h => ?_⟩
  · rw [Indent.lead_succ, String.append_eq_empty_iff] at h
    exact h.1
  · rw [Indent.lead, h]
    exact String.toList_inj.mp (by simp [String.toList_join])

/-- How a row of code stands: it is empty, or its text has no line feed and stands at the level of the code or
deeper, and deeper if it is blank, unless blank texts may stand anywhere. -/
def Row.Stands (level : Nat) (loose : Bool) : Row → Prop
  | .bare => True
  | .at depth text => '\n' ∉ text.toList ∧ level ≤ depth ∧ (isBlank text = true → loose = true ∨ level < depth)

theorem Row.Stands.newline_not_mem {level : Nat} {loose : Bool} {row : Row} (h : row.Stands level loose)
    (indent : Indent) : '\n' ∉ (row.line indent).toList := by
  cases row with
  | bare => exact List.not_mem_nil
  | «at» depth text =>
    rw [Row.line, String.toList_append, List.mem_append, not_or]
    exact ⟨Indent.not_mem_lead (by decide) (by decide), h.1⟩

/-- What stands one level deeper stands at a level wherever blank texts may stand. -/
theorem Row.Stands.deeper {level : Nat} {inner : Bool} (loose : Bool) {row : Row}
    (h : row.Stands (level + 1) inner) : row.Stands level loose := by
  cases row with
  | bare => trivial
  | «at» depth text =>
    have hlt : level < depth := h.2.1
    exact ⟨h.1, Nat.le_of_lt hlt, fun _ => .inr hlt⟩

variable {L : Lettering} {loose : Bool}

theorem Lettering.Spells.newline_not_mem {text : String} (h : L.Spells text) (hL : ¬ L.inside '\n') :
    '\n' ∉ text.toList :=
  fun hc => hL (h _ hc)

/-- A header with a space after it holds no more than the header and the space. -/
theorem mem_headed {header : String} {c : Char} (h : c ∈ (headed header).toList) :
    c ∈ header.toList ∨ c = ' ' := by
  unfold headed at h
  split at h
  · exact absurd h List.not_mem_nil
  · rw [String.toList_append, List.mem_append] at h
    exact h.imp_right fun hc => List.mem_singleton.mp hc

/-- A line of ink without line feeds stands at its level. -/
theorem stands_ink {level : Nat} {text : String} (hline : '\n' ∉ text.toList) (hink : isBlank text = false) :
    (Row.at level text).Stands level loose :=
  ⟨hline, Nat.le_refl level, fun h => absurd h (Bool.eq_false_iff.mp hink)⟩

theorem newline_not_mem_headed {header : String} (h : '\n' ∉ header.toList) : '\n' ∉ (headed header).toList :=
  fun hc => (mem_headed hc).elim h (by decide)

theorem stands_open {level : Nat} {header : String} (h : '\n' ∉ header.toList) :
    (Row.at level (headed header ++ openBrace)).Stands level loose := by
  refine stands_ink ?_ (ink_append _ (by decide))
  rw [String.toList_append, List.mem_append, not_or]
  exact ⟨newline_not_mem_headed h, by decide⟩

/-- A body in braces stands one level deeper between two lines, or is left out of a line that has both
braces. -/
theorem rowsOf_braced (level : Nat) (header : String) (body : List Fragment) (suffix : String) :
    rowsOf level [braced header body suffix] =
      if body = [] then [.at level (headed header ++ openBrace ++ closeBrace ++ suffix)]
      else .at level (headed header ++ openBrace) :: (rowsOf (level + 1) body ++
        [.at level (closeBrace ++ suffix)]) := by
  rw [rowsOf_singleton]
  split
  · rename_i hb
    rw [braced, if_pos (List.isEmpty_iff.mpr hb), Fragment.rows]
  · rename_i hb
    exact braced_rows_of_ne_nil level header hb suffix

/-- The rows of code hold no line feed; a blank one stands deeper than the code. -/
theorem Code.stands (hL : ¬ L.inside '\n') {fs : List Fragment} (h : Code L loose fs) (level : Nat) :
    ∀ row ∈ rowsOf level fs, row.Stands level loose := by
  induction h generalizing level with
  | nil => rw [rowsOf_nil]; exact fun _ h => absurd h List.not_mem_nil
  | append _ _ ihf ihg =>
    rw [rowsOf_append, List.forall_mem_append]
    exact ⟨ihf level, ihg level⟩
  | blank =>
    rw [rowsOf_singleton, Fragment.rows, List.forall_mem_singleton]
    trivial
  | line hfits hblank =>
    rw [rowsOf_singleton, Fragment.rows, List.forall_mem_singleton]
    exact ⟨hfits.1.newline_not_mem hL, Nat.le_refl level, fun hb => .inl (hblank hb)⟩
  | sequence _ ih =>
    rw [rowsOf_singleton, Fragment.rows]
    exact ih level
  | @braced loose inner header suffix body hheader hsuffix _ ih =>
    have hh := hheader.1.newline_not_mem hL
    have hs := hsuffix.newline_not_mem hL
    rw [rowsOf_braced]
    split
    · rw [List.forall_mem_singleton]
      refine stands_ink ?_ (by simp [ink_append (headed header) (show isBlank openBrace = false by decide)])
      simp only [String.toList_append, List.mem_append, not_or]
      exact ⟨⟨⟨newline_not_mem_headed hh, by decide⟩, by decide⟩, hs⟩
    · -- Whatever is blank in the body stands one level deeper than the braces.
      rw [List.forall_mem_cons, List.forall_mem_append, List.forall_mem_singleton]
      refine ⟨stands_open hh, fun row hrow => (ih (level + 1) row hrow).deeper loose, stands_ink ?_ ?_⟩
      · rw [String.toList_append, List.mem_append, not_or]
        exact ⟨by decide, hs⟩
      · rw [isBlank_append, show isBlank closeBrace = false by decide, Bool.false_and]
  | @branches loose header body otherwise hheader _ _ ihbody ihother =>
    have hclose : (Row.at level closeBrace).Stands level loose := stands_ink (by decide) (by decide)
    have helse : (Row.at level elseText).Stands level loose := stands_ink (by decide) (by decide)
    rw [branchFragments_rows, List.forall_mem_append, List.forall_mem_singleton, List.forall_mem_append,
      List.forall_mem_cons, List.forall_mem_cons]
    exact ⟨⟨⟨stands_open (hheader.1.newline_not_mem hL),
      fun row hrow => (ihbody (level + 1) row hrow).deeper loose⟩,
      helse, fun row hrow => (ihother (level + 1) row hrow).deeper loose⟩, hclose⟩

/-! ## Files -/

/-- Lines without line feeds, of any other characters. -/
def Lettering.oneLine : Lettering where
  inside c := c ≠ '\n'
  first _ := True
  inside_of_ordinary h := by
    rintro rfl
    exact absurd h (by decide)
  first_of_ink _ _ := trivial

theorem Lettering.not_inside_newline : ¬ Lettering.oneLine.inside '\n' :=
  fun h => (show '\n' ≠ '\n' from h) rfl

theorem fits_oneLine {es : List Element} (h : SingleLineWords es) : ∀ p ∈ texts es, p.Fits .oneLine := by
  have hfits : ∀ {text : String}, '\n' ∉ text.toList → Lettering.oneLine.Fits text :=
    fun ht => ⟨fun _ hc hn => ht (hn ▸ hc), fun _ _ => trivial⟩
  intro p hp
  cases p with
  | word text => exact hfits (h _ hp rfl)
  | _ => exact fun line hline => hfits (newline_not_mem_lines hline)

/-- What holds of the rows of each element, and of an empty row, holds of the rows of elements. -/
theorem forall_elementRows {P : Row → Prop} {topLevel : Bool} {level : Nat} (hbare : P .bare) :
    ∀ {es : List Element}, (∀ e ∈ es, ∀ row ∈ rowsOf level (e.fragments topLevel), P row) →
      ∀ row ∈ elementRows topLevel level es, P row
  | [], _ => by rw [elementRows_nil]; exact fun _ h => absurd h List.not_mem_nil
  | [e], h => by rw [elementRows]; exact h e (List.mem_singleton_self _)
  | e :: next :: rest, h => by
    rw [List.forall_mem_cons] at h
    have hgap : ∀ row ∈ e.gap, P row := by
      intro row hrow
      unfold Element.gap at hrow
      split at hrow
      · exact absurd hrow List.not_mem_nil
      · exact List.mem_singleton.mp hrow ▸ hbare
    rw [elementRows, List.forall_mem_append, List.forall_mem_append]
    exact ⟨⟨h.1, hgap⟩, forall_elementRows hbare h.2⟩

theorem bannerRows_stand (level : Nat) (banner : Option String) :
    ∀ row ∈ bannerRows level banner, row.Stands level false := by
  cases banner with
  | none => exact fun row h => absurd h (by rw [bannerRows, CodeFile.bannerFragments, rowsOf_nil]; simp)
  | some text =>
    rw [bannerRows_some, List.forall_mem_map]
    intro line hline
    refine stands_ink ?_ (by rw [isBlank_append, show isBlank "// " = false by decide, Bool.false_and])
    rw [String.toList_append, List.mem_append, not_or]
    exact ⟨by decide, newline_not_mem_lines hline⟩

/-- The elements of a file that is valid lack nothing. -/
theorem CodeFile.validate_eq_ok_iff {f : CodeFile} :
    f.validate = .ok () ↔ ∀ e ∈ f.elements, e.missing? = none := by
  have hdefect : firstDefect 0 f.elements = none ↔ ∀ e ∈ f.elements, e.missing? = none :=
    firstDefect_eq_none_iff
  rw [validate, validateFrom_eq, ← hdefect]
  cases firstDefect 0 f.elements with
  | none => exact ⟨fun _ => rfl, fun _ => rfl⟩
  | some d => exact ⟨fun h => (by cases h), fun h => (by cases h)⟩

theorem CodeFile.renderAt_of_valid {f : CodeFile} (h : f.validate = .ok ()) (indent : Indent) (level : Nat) :
    f.renderAt indent level = .ok (f.text indent level) := by
  rw [render_eq, h]; rfl

/-- The rows of a file that lacks nothing hold no line feed; a blank one stands deeper than the file. -/
theorem CodeFile.stands {f : CodeFile} (hvalid : f.validate = .ok ()) (hwords : SingleLineWords f.elements)
    (level : Nat) : ∀ row ∈ f.rows level, row.Stands level false := by
  rw [validate_eq_ok_iff] at hvalid
  rw [rows, List.forall_mem_append, List.forall_mem_append]
  refine ⟨⟨bannerRows_stand level f.banner, ?_⟩, forall_elementRows trivial fun e he => ?_⟩
  · unfold bannerGap
    split
    · exact fun _ h => absurd h List.not_mem_nil
    · exact List.forall_mem_singleton.mpr trivial
  · exact (e.code true (hvalid e he) fun p hp =>
      fits_oneLine hwords p (texts_subset_of_mem he hp)).stands Lettering.not_inside_newline level

/-! ## Lines -/

theorem pieces_line {cs : List Char} (h : '\n' ∉ cs) (rest : List Char) :
    pieces (cs ++ '\n' :: rest) = (cs ++ ['\n']) :: pieces rest := by
  induction cs with
  | nil => simp [pieces]
  | cons c cs ih =>
    rw [List.mem_cons, not_or] at h
    rw [List.cons_append, pieces, if_neg (Ne.symm h.1), ih h.2, consLine]; rfl

section Lines

variable {P : List Char → Prop}

/-- What holds of a text without line feeds, and of a text with one more line in front whenever it holds of the
text, holds of every text. -/
theorem lines_induction (last : ∀ line, '\n' ∉ line → P line)
    (step : ∀ line rest, '\n' ∉ line → P rest → P (line ++ '\n' :: rest)) (cs : List Char) : P cs := by
  have begun : ∀ (cs line : List Char), '\n' ∉ line → P (line ++ cs) := by
    intro cs
    induction cs with
    | nil =>
      intro line hline
      rw [List.append_nil]
      exact last line hline
    | cons c rest ih =>
      intro line hline
      by_cases hc : c = '\n'
      · rw [hc]
        exact step line rest hline (ih [] List.not_mem_nil)
      · have hmore : '\n' ∉ line ++ [c] := by simp [hline, Ne.symm hc]
        have hnext := ih (line ++ [c]) hmore
        rw [List.append_assoc] at hnext
        exact hnext
  exact begun cs [] List.not_mem_nil

end Lines

variable {indent : Indent} {rows : List Row}

/-- The text of rows without line feeds is cut into the rows. -/
theorem pieces_rowsText (h : ∀ row ∈ rows, '\n' ∉ (row.line indent).toList) :
    pieces (rowsText indent rows).toList = rows.map fun row => (row.line indent).toList ++ ['\n'] := by
  induction rows with
  | nil => rfl
  | cons row rows ih =>
    rw [List.forall_mem_cons] at h
    have hline : (row.text indent).toList = (row.line indent).toList ++ ['\n'] := by
      rw [Row.text_eq_line, String.toList_append]; rfl
    rw [rowsText_cons, String.toList_append, hline, List.append_assoc, List.singleton_append,
      pieces_line h.1, ih h.2, List.map_cons]

/-- The lines of the text of rows are the rows. -/
theorem writtenLines_rowsText (h : ∀ row ∈ rows, '\n' ∉ (row.line indent).toList) :
    writtenLines (rowsText indent rows) = rows.map (Row.line indent) := by
  rw [writtenLines, pieces_rowsText h, List.map_map]
  refine List.map_congr_left fun row hrow => ?_
  have hkeep : (row.line indent).toList.filter (· != '\n') = (row.line indent).toList :=
    List.filter_eq_self.mpr fun c hc => bne_iff_ne.mpr fun hn => h row hrow (hn ▸ hc)
  rw [Function.comp_apply, List.filter_append, hkeep, show ['\n'].filter (· != '\n') = [] by decide,
    List.append_nil, String.ofList_toList]

/-- The lines of the text of a file that is valid are its rows. -/
theorem CodeFile.writtenLines_text {f : CodeFile} (hvalid : f.validate = .ok ())
    (hwords : SingleLineWords f.elements) (indent : Indent) (level : Nat) :
    writtenLines (f.text indent level) = (f.rows level).map (Row.line indent) := by
  have hstands := stands hvalid hwords level
  rw [text_eq_rows, writtenLines_rowsText fun row hrow => (hstands row hrow).newline_not_mem indent]

end TypeScribe

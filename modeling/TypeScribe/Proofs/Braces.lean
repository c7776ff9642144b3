import TypeScribe.Proofs.WrittenLines

/-!
# Braces and levels

Where the texts of the elements hold no braces, the braces of the code are those of its blocks: they balance,
and each line stands as many levels in as braces are open before it, one less if it begins by closing one.

* `Follows`: rows whose levels follow their braces.
* `Code.follows`: the rows of code do.
* `CodeFile.renderAt_braces`: so do the lines of a file.
-/

namespace TypeScribe

/-! ## Reading braces -/

/-- Reads one character with some braces open: how many are open after it, unless it closes one where there is
none. -/
def readBrace (depth : Nat) (c : Char) : Option Nat :=
  if c = '\x7b' then some (depth + 1)
  else if c = '\x7d' then (if depth = 0 then none else some (depth - 1))
  else some depth

/-- Reads characters with some braces open: how many are open after them, if none is closed that was not
open. -/
def readBraces (depth : Nat) (cs : List Char) : Option Nat := cs.foldlM readBrace depth

theorem readBraces_append (a b : List Char) (depth : Nat) :
    readBraces depth (a ++ b) = (readBraces depth a).bind fun between => readBraces between b :=
  List.foldlM_append

theorem readBraces_open (depth : Nat) : readBraces depth ['\x7b'] = some (depth + 1) := rfl

theorem readBraces_close (depth : Nat) : readBraces (depth + 1) ['\x7d'] = some depth := rfl

/-- Characters that are no braces change nothing. -/
theorem readBraces_free {cs : List Char} (hopen : '\x7b' ∉ cs) (hclose : '\x7d' ∉ cs) (depth : Nat) :
    readBraces depth cs = some depth := by
  induction cs with
  | nil => rfl
  | cons c rest ih =>
    rw [List.mem_cons, not_or] at hopen hclose
    have hc : readBrace depth c = some depth := by
      rw [readBrace, if_neg (Ne.symm hopen.1), if_neg (Ne.symm hclose.1)]
    rw [readBraces, List.foldlM_cons, hc]
    exact ih hopen.2 hclose.2

/-- One character opens or closes a brace, or neither. -/
theorem count_of_readBrace {c : Char} {depth after : Nat} (h : readBrace depth c = some after) :
    depth + [c].count '\x7b' = after + [c].count '\x7d' := by
  unfold readBrace at h
  split at h
  · rename_i hc
    obtain rfl := Option.some.inj h
    rw [hc]
    exact rfl
  · rename_i hopen
    split at h
    · rename_i hc
      split at h
      · cases h
      · obtain rfl := Option.some.inj h
        rw [hc, show List.count '\x7b' ['\x7d'] = 0 by decide, show List.count '\x7d' ['\x7d'] = 1 by decide]
        omega
    · rename_i hclose
      obtain rfl := Option.some.inj h
      rw [List.count_singleton, List.count_singleton, if_neg (by simpa using hopen),
        if_neg (by simpa using hclose)]

/-- What is open after some characters is what was open before them and what they open, less what they close. -/
theorem count_of_readBraces {cs : List Char} {depth after : Nat} (h : readBraces depth cs = some after) :
    depth + cs.count '\x7b' = after + cs.count '\x7d' := by
  induction cs generalizing depth with
  | nil =>
    obtain rfl := Option.some.inj h
    rfl
  | cons c rest ih =>
    rw [readBraces, List.foldlM_cons] at h
    obtain ⟨between, hbetween, hrest⟩ := Option.bind_eq_some_iff.mp h
    have hc := count_of_readBrace hbetween
    have hcs := ih hrest
    rw [← List.singleton_append, List.count_append, List.count_append]
    omega

/-- As far as they are read, characters close no brace that is not open. -/
theorem count_prefix_of_readBraces {cs start : List Char} {depth after : Nat}
    (h : readBraces depth cs = some after) (hstart : start <+: cs) :
    start.count '\x7d' ≤ depth + start.count '\x7b' := by
  obtain ⟨rest, rfl⟩ := hstart
  rw [readBraces_append, Option.bind_eq_some_iff] at h
  obtain ⟨between, hbetween, -⟩ := h
  have := count_of_readBraces hbetween
  omega

/-! ## Rows -/

/-- A text that does not begin with a space. -/
def Unindented (text : String) : Prop := ∀ c ∈ text.toList.head?, Blank.isSpace c = false

instance (text : String) : Decidable (Unindented text) :=
  decidable_of_iff (text.toList.head?.all (fun c => !Blank.isSpace c) = true) <| by
    rw [Option.all_eq_true]
    exact forall₂_congr fun c _ => by rw [Bool.not_eq_true']

/-- How many levels a text stands further out than the braces open before it: one if it begins by closing
one. -/
def dip (text : String) : Nat := if text.toList.head? = some '\x7d' then 1 else 0

/-- Rows whose levels follow their braces, from a base level and with some braces open at first and at last. No
text begins with a space. -/
inductive Follows (base : Nat) : Nat → List Row → Nat → Prop
  | nil {depth : Nat} : Follows base depth [] depth
  | bare {depth stop : Nat} {rows : List Row} : Follows base depth rows stop →
      Follows base depth (.bare :: rows) stop
  | row {level depth next stop : Nat} {text : String} {rows : List Row} :
      Unindented text → level + dip text = base + depth → readBraces depth text.toList = some next →
        Follows base next rows stop → Follows base depth (.at level text :: rows) stop

/-- A text closes no brace first unless one is open. -/
theorem dip_le_of_readBraces {text : String} {depth next : Nat} (h : readBraces depth text.toList = some next) :
    dip text ≤ depth := by
  unfold dip
  split
  · rename_i hhead
    have hstart : ['\x7d'] <+: text.toList := by
      obtain ⟨rest, hrest⟩ := List.head?_eq_some_iff.mp hhead
      exact ⟨rest, hrest.symm⟩
    have hcount := count_prefix_of_readBraces h hstart
    rw [show List.count '\x7d' ['\x7d'] = 1 by decide, show List.count '\x7b' ['\x7d'] = 0 by decide] at hcount
    exact hcount
  · exact Nat.zero_le depth

namespace Follows

variable {base depth stop : Nat}

theorem append {next : Nat} {rows more : List Row} (h : Follows base depth rows next)
    (hmore : Follows base next more stop) : Follows base depth (rows ++ more) stop := by
  induction h with
  | nil => exact hmore
  | bare _ ih => exact .bare (ih hmore)
  | row hfirst hlevel hread _ ih => exact .row hfirst hlevel hread (ih hmore)

/-- Rows that follow their braces do so up to any row and from it on. -/
theorem split {rows more : List Row} (h : Follows base depth (rows ++ more) stop) :
    ∃ next, Follows base depth rows next ∧ Follows base next more stop := by
  induction rows generalizing depth with
  | nil => exact ⟨depth, .nil, h⟩
  | cons row rows ih =>
    cases h with
    | bare h =>
      obtain ⟨next, hrows, hmore⟩ := ih h
      exact ⟨next, .bare hrows, hmore⟩
    | row hfirst hlevel hread h =>
      obtain ⟨next, hrows, hmore⟩ := ih h
      exact ⟨next, .row hfirst hlevel hread hrows, hmore⟩

/-- The braces of rows as they are read line by line, with no brace after a line. -/
theorem readBraces_lines {rows : List Row} (h : Follows base depth rows stop) (indent : Indent)
    (tail : List Char) (htail : ∀ open', readBraces open' tail = some open') :
    readBraces depth (rows.flatMap fun row => (row.line indent).toList ++ tail) = some stop := by
  induction h with
  | nil => rfl
  | bare _ ih =>
    rw [List.flatMap_cons, Row.line, readBraces_append, String.toList_empty, List.nil_append, htail]
    exact ih
  | row _ _ hread _ ih =>
    have hlead : ∀ level open', readBraces open' (indent.lead level).toList = some open' :=
      fun level => readBraces_free (Indent.not_mem_lead (by decide) (by decide))
        (Indent.not_mem_lead (by decide) (by decide))
    rw [List.flatMap_cons, Row.line, String.toList_append, List.append_assoc, List.append_assoc,
      readBraces_append, hlead, Option.bind_some, readBraces_append, hread, Option.bind_some, readBraces_append,
      htail]
    exact ih

end Follows

/-! ## Code -/

/-- Lines without braces and line feeds that begin with ink. -/
def Lettering.unbraced : Lettering where
  inside c := isOrdinary c = true
  first c := Blank.isSpace c = false
  inside_of_ordinary h := h
  first_of_ink _ h := h

theorem Lettering.Spells.braces_not_mem {text : String} (h : Lettering.unbraced.Spells text) :
    '\x7b' ∉ text.toList ∧ '\x7d' ∉ text.toList := by
  have hordinary : ∀ c ∈ text.toList, isOrdinary c = true := h
  exact ⟨fun hc => absurd (hordinary _ hc) (by decide), fun hc => absurd (hordinary _ hc) (by decide)⟩

theorem readBraces_spells {text : String} (h : Lettering.unbraced.Spells text) (depth : Nat) :
    readBraces depth text.toList = some depth :=
  readBraces_free h.braces_not_mem.1 h.braces_not_mem.2 depth

theorem dip_eq_zero {text : String} (h : text.toList.head? ≠ some '\x7d') : dip text = 0 := if_neg h

/-- The first character of a text that fits, or of what follows it. -/
theorem head_of_fits_append {s t : String} (hs : Lettering.unbraced.Fits s)
    (ht : ∀ c ∈ t.toList.head?, Blank.isSpace c = false ∧ c ≠ '\x7d') :
    ∀ c ∈ (s ++ t).toList.head?, Blank.isSpace c = false ∧ c ≠ '\x7d' := by
  rw [String.toList_append, List.head?_append]
  cases hhead : s.toList.head? with
  | none => exact ht
  | some first =>
    rw [Option.some_or]
    rintro c hc
    obtain rfl := Option.some.inj hc
    refine ⟨hs.2 first hhead, ?_⟩
    rintro rfl
    exact hs.1.braces_not_mem.2 (List.mem_of_mem_head? hhead)

theorem fits_headed {L : Lettering} {header : String} (h : L.Fits header) : L.Fits (headed header) := by
  unfold headed
  split
  · exact Lettering.fits_empty
  · rename_i hne
    exact h.append_spells (by rwa [String.isEmpty_iff] at hne) (Lettering.spells_ordinary rfl)

namespace Follows

variable {base depth : Nat}

/-- One row whose text begins with a character that is no space and closes no brace. -/
theorem inked {text : String} {next : Nat}
    (hfirst : ∀ c ∈ text.toList.head?, Blank.isSpace c = false ∧ c ≠ '\x7d')
    (hread : readBraces depth text.toList = some next) : Follows base depth [.at (base + depth) text] next := by
  have hdip : dip text = 0 := dip_eq_zero fun h => (hfirst _ h).2 rfl
  exact .row (fun c hc => (hfirst c hc).1) (by rw [hdip, Nat.add_zero]) hread .nil

/-- A line without braces. -/
theorem line {text : String} (h : Lettering.unbraced.Fits text) :
    Follows base depth [.at (base + depth) text] depth := by
  have hfirst := head_of_fits_append h (t := "") fun _ hc => absurd hc (Option.not_mem_none _)
  rw [String.append_empty] at hfirst
  exact .inked hfirst (readBraces_spells h.1 depth)

theorem first_of_openBrace (rest : String) :
    ∀ c ∈ (openBrace ++ rest).toList.head?, Blank.isSpace c = false ∧ c ≠ '\x7d' := by
  intro c hc
  rw [String.toList_append] at hc
  obtain rfl := Option.some.inj hc
  decide

/-- The line that opens a block. -/
theorem opening {header : String} (h : Lettering.unbraced.Fits header) :
    Follows base depth [.at (base + depth) (headed header ++ openBrace)] (depth + 1) := by
  have hfirst := head_of_fits_append (fits_headed h) (first_of_openBrace "")
  rw [String.append_empty] at hfirst
  refine .inked hfirst ?_
  rw [String.toList_append, readBraces_append, readBraces_spells (fits_headed h).1]
  exact readBraces_open depth

/-- The line of a block that is left out. -/
theorem collapsed {header suffix : String} (h : Lettering.unbraced.Fits header)
    (hsuffix : Lettering.unbraced.Spells suffix) :
    Follows base depth [.at (base + depth) (headed header ++ openBrace ++ closeBrace ++ suffix)] depth := by
  rw [String.append_assoc, String.append_assoc]
  refine .inked (head_of_fits_append (fits_headed h) (first_of_openBrace _)) ?_
  rw [String.toList_append, readBraces_append, readBraces_spells (fits_headed h).1, Option.bind_some,
    String.toList_append, readBraces_append, show openBrace.toList = ['\x7b'] from rfl, readBraces_open,
    Option.bind_some, String.toList_append, readBraces_append, show closeBrace.toList = ['\x7d'] from rfl,
    readBraces_close, Option.bind_some, readBraces_spells hsuffix]

/-- The line that closes a block. -/
theorem closing {suffix : String} (hsuffix : Lettering.unbraced.Spells suffix) :
    Follows base (depth + 1) [.at (base + depth) (closeBrace ++ suffix)] depth := by
  have hhead : (closeBrace ++ suffix).toList.head? = some '\x7d' := by rw [String.toList_append]; rfl
  refine .row (fun c hc => ?_) (by rw [dip, if_pos hhead, Nat.add_assoc]) ?_ .nil
  · rw [hhead] at hc
    obtain rfl := Option.some.inj hc
    decide
  · rw [String.toList_append, readBraces_append, show closeBrace.toList = ['\x7d'] from rfl, readBraces_close,
      Option.bind_some, readBraces_spells hsuffix]

/-- The line between the two branches of a condition. -/
theorem turning : Follows base (depth + 1) [.at (base + depth) elseText] (depth + 1) := by
  have hhead : elseText.toList.head? = some '\x7d' := rfl
  refine .row (fun c hc => ?_) (by rw [dip, if_pos hhead, Nat.add_assoc]) rfl .nil
  rw [hhead] at hc
  obtain rfl := Option.some.inj hc
  decide

end Follows

/-- The rows of code whose texts have no braces follow the braces of its blocks. -/
theorem Code.follows {loose : Bool} {fs : List Fragment} (h : Code .unbraced loose fs) (base depth : Nat) :
    Follows base depth (rowsOf (base + depth) fs) depth := by
  induction h generalizing depth with
  | nil => rw [rowsOf_nil]; exact .nil
  | append _ _ ihf ihg => rw [rowsOf_append]; exact (ihf depth).append (ihg depth)
  | blank => rw [rowsOf_singleton, Fragment.rows]; exact .bare .nil
  | line hfits _ => rw [rowsOf_singleton, Fragment.rows]; exact .line hfits
  | sequence _ ih => rw [rowsOf_singleton, Fragment.rows]; exact ih depth
  | braced hheader hsuffix _ ih =>
    rw [rowsOf_braced]
    split
    · exact .collapsed hheader hsuffix
    · exact (Follows.opening hheader).append ((ih (depth + 1)).append (.closing hsuffix))
  | branches hheader _ _ ihbody ihother =>
    have hclose : Follows base (depth + 1) [.at (base + depth) (closeBrace ++ "")] depth :=
      .closing Lettering.spells_empty
    rw [String.append_empty] at hclose
    rw [branchFragments_rows, List.append_assoc, List.cons_append]
    exact (Follows.opening hheader).append ((ihbody (depth + 1)).append
      (Follows.turning.append ((ihother (depth + 1)).append hclose)))

theorem Follows.elementRows {topLevel : Bool} {base depth : Nat} : ∀ {es : List Element},
    (∀ e ∈ es, Code .unbraced false (e.fragments topLevel)) →
      Follows base depth (elementRows topLevel (base + depth) es) depth
  | [], _ => by rw [elementRows_nil]; exact .nil
  | [e], h => by rw [TypeScribe.elementRows]; exact (h e (List.mem_singleton_self _)).follows base depth
  | e :: next :: rest, h => by
    rw [List.forall_mem_cons] at h
    have hgap : Follows base depth e.gap depth := by
      unfold Element.gap
      split
      · exact .nil
      · exact .bare .nil
    rw [TypeScribe.elementRows]
    exact ((h.1.follows base depth).append hgap).append (Follows.elementRows h.2)

/-! ## Texts without braces -/

/-- Characters of a line are characters of the text. -/
theorem mem_of_mem_splitLines {c : Char} {cs line : List Char} (hline : line ∈ splitLines cs) (hc : c ∈ line) :
    c ∈ cs := by
  fun_induction splitLines cs generalizing line with
  | case1 => exact absurd hline List.not_mem_nil
  | case2 rest ih =>
    rcases List.mem_cons.mp hline with rfl | hrest
    · exact absurd hc List.not_mem_nil
    · exact List.mem_cons_of_mem _ (ih hrest hc)
  | case3 rest ih =>
    rcases List.mem_cons.mp hline with rfl | hrest
    · exact absurd hc List.not_mem_nil
    · exact List.mem_cons_of_mem _ (List.mem_cons_of_mem _ (ih hrest hc))
  | case4 first rest _ _ ih =>
    cases hs : splitLines rest with
    | nil =>
      rw [hs, consLine, List.mem_singleton] at hline
      rw [hline, List.mem_singleton] at hc
      exact hc ▸ List.mem_cons_self
    | cons l ls =>
      rw [hs] at ih
      rw [hs, consLine] at hline
      rcases List.mem_cons.mp hline with rfl | hrest
      · rcases List.mem_cons.mp hc with rfl | hl
        · exact List.mem_cons_self
        · exact List.mem_cons_of_mem _ (ih List.mem_cons_self hl)
      · exact List.mem_cons_of_mem _ (ih (List.mem_cons_of_mem _ hrest) hc)

/-- Characters without a line feed are one line, if there are any. -/
theorem splitLines_of_newline_not_mem : ∀ {cs : List Char}, '\n' ∉ cs → cs ≠ [] → splitLines cs = [cs]
  | [], _, hne => absurd rfl hne
  | c :: rest, h, _ => by
    rw [List.mem_cons, not_or] at h
    have hfeed : ∀ more, rest ≠ '\n' :: more := fun more hrest => h.2 (by rw [hrest]; exact List.mem_cons_self)
    rw [splitLines_cons (Ne.symm h.1) fun _ => hfeed]
    cases rest with
    | nil => rfl
    | cons d rest => rw [splitLines_of_newline_not_mem h.2 (List.cons_ne_nil _ _)]; rfl

theorem lines_of_newline_not_mem {text : String} (h : '\n' ∉ text.toList) (hne : text ≠ "") :
    lines text = [text] := by
  have hchars : text.toList ≠ [] := fun hnil => hne (String.toList_eq_nil_iff.mp hnil)
  rw [lines, splitLines_of_newline_not_mem h hchars, List.map_singleton, String.ofList_toList]

/-- A text without braces, as it is cut into lines. -/
theorem fits_unbraced_lines {text : String} (hopen : '\x7b' ∉ text.toList) (hclose : '\x7d' ∉ text.toList)
    (hstart : ∀ line ∈ lines text, Unindented line) : ∀ line ∈ lines text, Lettering.unbraced.Fits line := by
  refine fun line hline => ⟨fun c hc => ?_, hstart line hline⟩
  have htext : c ∈ text.toList := by
    obtain ⟨cs, hcs, rfl⟩ := List.mem_map.mp hline
    rw [String.toList_ofList] at hc
    exact mem_of_mem_splitLines hcs hc
  show isOrdinary c = true
  simp only [isOrdinary, Bool.and_eq_true, bne_iff_ne]
  refine ⟨⟨?_, ?_⟩, ?_⟩
  · rintro rfl
    exact newline_not_mem_lines hline hc
  · rintro rfl
    exact hopen htext
  · rintro rfl
    exact hclose htext

/-- Texts without braces and without lines that begin with a space. -/
theorem fits_unbraced {es : List Element} (hwords : SingleLineWords es)
    (hbraces : ∀ p ∈ texts es, '\x7b' ∉ p.text.toList ∧ '\x7d' ∉ p.text.toList)
    (hstart : ∀ p ∈ texts es, ∀ line ∈ lines p.text, Unindented line) : ∀ p ∈ texts es, p.Fits .unbraced := by
  intro p hp
  have hlines := fits_unbraced_lines (hbraces p hp).1 (hbraces p hp).2 (hstart p hp)
  cases p with
  | word text =>
    by_cases hne : text = ""
    · rw [hne]
      exact Lettering.fits_empty
    · have hline : '\n' ∉ text.toList := hwords _ hp rfl
      refine hlines text ?_
      rw [Part.text, lines_of_newline_not_mem hline hne]
      exact List.mem_singleton_self _
  | statement text => exact hlines
  | value text => exact hlines
  | lastValue text => exact hlines

/-! ## Files -/

/-- Among rows that follow their braces, a row stands as many levels in as braces are open before it, one less
if it begins by closing one. -/
theorem Follows.level_of_row {base stop : Nat} {before after : List Row} {row : Row} {indent : Indent}
    (h : Follows base 0 (before ++ row :: after) stop) (hne : row.line indent ≠ "") :
    ∃ depth rest, row.line indent = indent.lead (base + depth) ++ rest ∧ Unindented rest ∧
      (before.flatMap fun row => (row.line indent).toList).count '\x7b' =
        (before.flatMap fun row => (row.line indent).toList).count '\x7d' + depth +
          if rest.toList.head? = some '\x7d' then 1 else 0 := by
  obtain ⟨next, hbefore, hafter⟩ := h.split
  have hcount := count_of_readBraces (hbefore.readBraces_lines indent [] fun _ => rfl)
  cases hafter with
  | bare _ => exact absurd rfl hne
  | @row level _ _ _ text _ hfirst hlevel htext _ =>
    -- A text that begins by closing a brace is read only where one is open, so nothing is cut off at zero.
    have hdip := dip_le_of_readBraces htext
    refine ⟨next - dip text, text, ?_, hfirst, ?_⟩
    · rw [Row.line, show base + (next - dip text) = level by omega]
    · simp only [List.append_nil] at hcount
      rw [dip] at hdip ⊢
      omega

/-- Braces balance, and indentation follows them: read from the start, no text of a file closes a brace that is
not open, and none is open at the end. A line that is not empty begins with the units of the level and as many
as braces are open before it, one less if it goes on with a closing one, and what it goes on with is no
space. -/
theorem CodeFile.renderAt_braces (es : List Element) (hvalid : (ofElements es).validate = .ok ())
    (hwords : SingleLineWords es) (hbraces : ∀ p ∈ texts es, '\x7b' ∉ p.text.toList ∧ '\x7d' ∉ p.text.toList)
    (hstart : ∀ p ∈ texts es, ∀ line ∈ lines p.text, Unindented line)
    (indent : Indent) (level : Nat) :
    ∃ text, (ofElements es).renderAt indent level = .ok text ∧
      (∀ start, start <+: text.toList → start.count '\x7d' ≤ start.count '\x7b') ∧
      text.toList.count '\x7d' = text.toList.count '\x7b' ∧
      ∀ before line after, writtenLines text = before ++ line :: after → line ≠ "" →
        ∃ depth rest, line = indent.lead (level + depth) ++ rest ∧ Unindented rest ∧
          (before.flatMap String.toList).count '\x7b' = (before.flatMap String.toList).count '\x7d' + depth +
            if rest.toList.head? = some '\x7d' then 1 else 0 := by
  have hcode : ∀ e ∈ es, Code .unbraced false (e.fragments true) := fun e he =>
    e.code true (validate_eq_ok_iff.mp hvalid e he) fun p hp =>
      fits_unbraced hwords hbraces hstart p (texts_subset_of_mem he hp)
  have hrows : (ofElements es).text indent level = rowsText indent (TypeScribe.elementRows true level es) :=
    text_ofElements indent level es
  have hfollows : Follows level 0 (TypeScribe.elementRows true level es) 0 := .elementRows hcode
  have hread : readBraces 0 ((ofElements es).text indent level).toList = some 0 := by
    rw [hrows, toList_rowsText]
    exact hfollows.readBraces_lines indent ['\n'] fun _ => rfl
  refine ⟨_, renderAt_of_valid hvalid indent level, fun start hstart => ?_, ?_, fun before line after hlines hne => ?_⟩
  · have := count_prefix_of_readBraces hread hstart
    omega
  · have := count_of_readBraces hread
    omega
  · rw [writtenLines_text hvalid hwords, rows_ofElements] at hlines
    obtain ⟨rows, more, hsplit, rfl, hmore⟩ := List.map_eq_append_iff.mp hlines
    obtain ⟨row, later, rfl, rfl, -⟩ := List.map_eq_cons_iff.mp hmore
    rw [hsplit] at hfollows
    rw [List.flatMap_map]
    exact hfollows.level_of_row hne

/-- Two branches at a level: the line between them stands where the first one does. -/
theorem CodeFile.renderAt_braces_branches :
    ∃ text, (ofElements [.ifElse "a" [.raw "b();\n\nc();"] (some [.raw "d();"])]).renderAt .tab 1 = .ok text ∧
      text = "\tif (a) \x7b\n\t\tb();\n\n\t\tc();\n\t\x7d else \x7b\n\t\td();\n\t\x7d\n" ∧
      text.toList.count '\x7d' = text.toList.count '\x7b' := by
  obtain ⟨text, hrender, -, hbalance, -⟩ :=
    renderAt_braces [.ifElse "a" [.raw "b();\n\nc();"] (some [.raw "d();"])] rfl (by decide) (by decide)
      (by decide) .tab 1
  obtain ⟨-, rfl⟩ := renderAt_eq_ok_iff.mp hrender
  exact ⟨_, hrender, by decide +kernel, hbalance⟩

end TypeScribe

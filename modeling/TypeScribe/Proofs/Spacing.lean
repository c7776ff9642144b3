import Mathlib.Data.List.Chain
import TypeScribe.Proofs.BlankRows

/-!
# Spacing

Where no line of a verbatim text is blank, the blank rows of a file are those that set its parts off from each
other. There is one at each place where one is due and none anywhere else, and no two of them come together: an
element begins with a text and ends in an empty row only if it is a loop, and it is in these cases that nothing
else adds one.

* `Spaced`: rows in which no empty row follows another one.
* `Element.spaced`: the rows of an element.
* `CodeFile.renderAt_spacing`: the empty lines of a file, how they stand and how many there are.
-/

namespace TypeScribe

/-! ## Rows apart from each other -/

/-- Rows in which no empty row follows another one, after and up to a row that is empty or not. -/
inductive Spaced : Bool → List Row → Bool → Prop
  | nil {start : Bool} : Spaced start [] start
  | bare {stop : Bool} {rows : List Row} : Spaced true rows stop → Spaced false (.bare :: rows) stop
  | text {start stop : Bool} {level : Nat} {text : String} {rows : List Row} : Spaced false rows stop →
      Spaced start (.at level text :: rows) stop

namespace Spaced

variable {start stop : Bool} {rows : List Row}

theorem append {next : Bool} {more : List Row} (h : Spaced start rows next) (hmore : Spaced next more stop) :
    Spaced start (rows ++ more) stop := by
  induction h with
  | nil => exact hmore
  | bare _ ih => exact .bare (ih hmore)
  | text _ ih => exact .text (ih hmore)

/-- Texts may stand after any row. -/
theorem of_texts (htexts : ∀ row ∈ rows, row ≠ .bare) (hne : rows ≠ []) : Spaced start rows false := by
  induction rows generalizing start with
  | nil => exact absurd rfl hne
  | cons row rows ih =>
    rw [List.forall_mem_cons] at htexts
    cases row with
    | bare => exact absurd rfl htexts.1
    | «at» level text =>
      cases rows with
      | nil => exact .text .nil
      | cons next rest => exact .text (ih htexts.2 (List.cons_ne_nil _ _))

theorem of_texts_after_text (htexts : ∀ row ∈ rows, row ≠ .bare) : Spaced false rows false := by
  cases rows with
  | nil => exact .nil
  | cons row rows => exact of_texts htexts (List.cons_ne_nil _ _)

/-- Spaced rows after an empty row do not begin with one, and none of them follows another. -/
theorem isChain (h : Spaced start rows stop) :
    (start = true → rows.head? ≠ some .bare) ∧ rows.IsChain fun a b => a = .bare → b ≠ .bare := by
  induction h with
  | nil => exact ⟨fun _ h => (by cases h), .nil⟩
  | @bare stop rows _ ih =>
    refine ⟨fun h => (by cases h), List.isChain_cons.mpr ⟨fun next hnext _ hbare => ih.1 rfl ?_, ih.2⟩⟩
    rw [hbare] at hnext
    exact hnext
  | text _ ih => exact ⟨fun _ h => (by cases h), List.isChain_cons.mpr ⟨fun _ _ h => (by cases h), ih.2⟩⟩

end Spaced

/-! ## Elements -/

theorem ne_bare_of_blankRows {rows : List Row} (h : blankRows rows = []) : ∀ row ∈ rows, row ≠ .bare := by
  rintro row hrow rfl
  exact absurd (List.filterMap_eq_nil_iff.mp h .bare hrow) (by rw [Row.blank?]; exact Option.some_ne_none _)

variable {start : Bool}

/-- A body in braces, between two texts. -/
theorem spaced_braced (level : Nat) (header : String) {body : List Fragment} (suffix : String)
    (hbody : ∃ stop, Spaced false (rowsOf (level + 1) body) stop) :
    Spaced start (rowsOf level [braced header body suffix]) false := by
  obtain ⟨stop, hbody⟩ := hbody
  rw [rowsOf_braced]
  split
  · exact .text .nil
  · exact .text (hbody.append (.text .nil))

/-- An element is set off from the next one by its own empty row or by the gap. -/
theorem spaced_gap (e : Element) : Spaced e.isLoop e.gap true := by
  unfold Element.gap
  split
  · rename_i hloop
    rw [hloop]
    exact .nil
  · rename_i hloop
    rw [Bool.not_eq_true] at hloop
    rw [hloop]
    exact .bare .nil

/-- The rows of a body, after a gap of an element. -/
theorem Statement.spaced {body : List Statement} {level : Nat}
    (helements : ∀ x ∈ elementsOf body, ∀ start, Spaced start (rowsOf level (x.fragments false)) x.isLoop)
    (htexts : ∀ p ∈ statementsOf body, p.blankRows = []) (gap : List Fragment) :
    (∃ next, Spaced start (rowsOf level gap) next) →
      ∃ stop, Spaced start (rowsOf level (Statement.fragments gap body)) stop := by
  induction body generalizing start gap with
  | nil =>
    rw [Statement.fragments, rowsOf_nil]
    exact fun _ => ⟨start, .nil⟩
  | cons item rest ih =>
    rintro ⟨next, hgap⟩
    have hnone : ∀ start, ∃ stop, Spaced start (rowsOf level []) stop :=
      fun start => ⟨start, by rw [rowsOf_nil]; exact .nil⟩
    cases item with
    | raw text =>
      rw [elementsOf_raw] at helements
      rw [statementsOf_raw, List.forall_mem_cons] at htexts
      have hlines : ∀ row ∈ rowsOf level (rawFragments text), row ≠ .bare :=
        ne_bare_of_blankRows ((blankRows_rawFragments level text).trans htexts.1)
      rw [fragments_raw, rowsOf_append]
      -- An item without lines leaves the row before it the last one.
      by_cases hempty : rowsOf level (rawFragments text) = []
      · rw [hempty, List.nil_append]
        exact ih helements htexts.2 [] (hnone start)
      · obtain ⟨stop, hrest⟩ := ih helements htexts.2 [] (hnone false)
        exact ⟨stop, (Spaced.of_texts hlines hempty).append hrest⟩
    | element e =>
      rw [elementsOf_element, List.forall_mem_cons] at helements
      rw [statementsOf_element] at htexts
      -- Either the element ends in an empty row, or the gap adds one to a text.
      have hafter : Spaced e.isLoop (rowsOf level (gapFragments e)) true := by
        rw [rowsOf_gapFragments]
        exact spaced_gap e
      obtain ⟨stop, hrest⟩ := ih helements.2 htexts _ ⟨true, hafter⟩
      rw [fragments_element, rowsOf_append, rowsOf_append]
      exact ⟨stop, (hgap.append (helements.1 next)).append hrest⟩

/-- The rows of methods: after a text each but a first one has an empty row in front. -/
theorem Method.spaced {level : Nat} {methods : List Method}
    (hbodies : ∀ m ∈ methods, ∃ stop, Spaced false (rowsOf (level + 1) (Statement.fragments [] m.body)) stop)
    (isFirst : Bool) : Spaced false (rowsOf level (Method.fragments isFirst methods)) false := by
  induction methods generalizing isFirst with
  | nil =>
    rw [Method.fragments, rowsOf_nil]
    exact .nil
  | cons m rest ih =>
    obtain ⟨head, body⟩ := m
    rw [List.forall_mem_cons] at hbodies
    have hgap : ∃ next, Spaced false (rowsOf level (if isFirst then [] else [.blank])) next := by
      cases isFirst with
      | true => exact ⟨false, by rw [if_pos rfl, rowsOf_nil]; exact .nil⟩
      | false =>
        refine ⟨true, ?_⟩
        rw [if_neg Bool.false_ne_true, rowsOf_singleton, Fragment.rows]
        exact .bare .nil
    obtain ⟨next, hgap⟩ := hgap
    rw [Method.fragments, rowsOf_append, rowsOf_cons, ← rowsOf_singleton]
    exact hgap.append ((spaced_braced level head.text "" hbodies.1).append (ih hbodies.2 false))

namespace Element

theorem rowsOf_fragments_ne_nil (topLevel : Bool) (level : Nat) (e : Element) :
    rowsOf level (e.fragments topLevel) ≠ [] := by
  obtain ⟨rows, ⟨init, depth, text, rfl, -⟩, hrows⟩ := e.rows_end topLevel level
  rw [hrows, List.append_assoc]
  exact List.append_ne_nil_of_right_ne_nil init (List.cons_ne_nil _ _)

/-- An element without bodies whose texts have no blank lines has no blank rows. -/
theorem blankRows_eq_nil {e : Element} (hloop : e.isLoop = false) (hmethods : e.laterMethods = [])
    (hbodies : e.bodies = []) (hfree : ∀ p ∈ texts [e], p.blankRows = []) (topLevel : Bool) (level : Nat) :
    blankRows (rowsOf level (e.fragments topLevel)) = [] := by
  have hdepths : allDepths [e] = [e] := by
    rw [allDepths_cons, inner_eq, children, hbodies]; rfl
  have hown : e.ownTexts.flatMap Part.blankRows = [] := by
    refine List.flatMap_eq_nil_iff.mpr fun p hp => hfree p ?_
    rw [texts, hdepths, List.flatMap_singleton]
    exact hp
  have hperm := e.blankRows_perm topLevel level
  rw [hdepths, List.flatMap_singleton, ownBlankRows, hloop, hmethods, hbodies, hown] at hperm
  exact hperm.eq_nil

/-- The rows of an element, after any row: no empty row follows another one, and the last one is empty for a
loop. -/
theorem spaced (e : Element) (hfree : ∀ p ∈ texts [e], p.blankRows = []) (topLevel : Bool) (level : Nat)
    (start : Bool) : Spaced start (rowsOf level (e.fragments topLevel)) e.isLoop := by
  induction e using Element.bodies_induction generalizing topLevel level start with
  | step e ih =>
  have hbody : ∀ body ∈ e.bodies, ∀ level,
      ∃ stop, Spaced false (rowsOf level (Statement.fragments [] body)) stop := by
    refine fun body hb level => Statement.spaced (fun x hx start => ?_) (fun p hp => ?_) [] ?_
    · exact ih body hb x hx (fun p hp => hfree p (texts_subset_of_bodies hb hx hp)) false level start
    · exact hfree p (statementsOf_subset_texts hb hp)
    · exact ⟨false, by rw [rowsOf_nil]; exact .nil⟩
  have flat : e.isLoop = false → e.laterMethods = [] → e.bodies = [] →
      Spaced start (rowsOf level (e.fragments topLevel)) false := fun hloop hmethods hbodies =>
    .of_texts (ne_bare_of_blankRows (blankRows_eq_nil hloop hmethods hbodies hfree topLevel level))
      (rowsOf_fragments_ne_nil topLevel level e)
  cases e with
  | functionDecl head body => exact spaced_braced level _ _ (hbody body (List.mem_singleton_self _) _)
  | arrowFunction signature body => exact spaced_braced level _ _ (hbody body (List.mem_singleton_self _) _)
  | classDecl head methods =>
    have hproperties : blankRows (rowsOf (level + 1) (head.properties.map ClassProperty.fragment)) = [] := by
      rw [head.blankRows_properties, ← ClassHead.blankRows_texts head methods]
      exact List.flatMap_eq_nil_iff.mpr fun p hp => hfree p (headTexts_subset_texts _ hp)
    refine spaced_braced level _ _ ⟨false, ?_⟩
    rw [rowsOf_append]
    exact (Spaced.of_texts_after_text (ne_bare_of_blankRows hproperties)).append
      (Method.spaced (fun m hm => hbody m.body (List.mem_map_of_mem hm) _) _)
  | ifElse condition body otherwise =>
    cases otherwise with
    | none => exact spaced_braced level _ _ (hbody body (List.mem_singleton_self _) _)
    | some otherwise =>
      obtain ⟨_, hfirst⟩ := hbody body List.mem_cons_self (level + 1)
      obtain ⟨_, hsecond⟩ := hbody otherwise (List.mem_cons_of_mem _ (List.mem_singleton_self _)) (level + 1)
      rw [fragments, branchFragments_rows, List.append_assoc, List.cons_append]
      exact .text (hfirst.append (.text (hsecond.append (.text .nil))))
  | forLoop clauses body =>
    rw [fragments, loopFragments_rows, ← rowsOf_singleton]
    exact (spaced_braced level _ _ (hbody body (List.mem_singleton_self _) _)).append (.bare .nil)
  | forOfLoop iteration body =>
    rw [fragments, loopFragments_rows, ← rowsOf_singleton]
    exact (spaced_braced level _ _ (hbody body (List.mem_singleton_self _) _)).append (.bare .nil)
  | _ => exact flat rfl rfl rfl

end Element

/-! ## Files -/

/-- The rows of elements that follow each other, after any row. -/
theorem spaced_elementRows (topLevel : Bool) (level : Nat) : ∀ es : List Element,
    (∀ p ∈ texts es, p.blankRows = []) → ∀ start, ∃ stop, Spaced start (elementRows topLevel level es) stop
  | [], _, start => ⟨start, by rw [elementRows_nil]; exact .nil⟩
  | [e], hfree, start => ⟨e.isLoop, by rw [elementRows]; exact e.spaced hfree topLevel level start⟩
  | e :: next :: rest, hfree, start => by
    rw [texts_cons, List.forall_mem_append] at hfree
    obtain ⟨stop, hrest⟩ := spaced_elementRows topLevel level (next :: rest) hfree.2 true
    rw [elementRows]
    exact ⟨stop, ((e.spaced hfree.1 topLevel level start).append (spaced_gap e)).append hrest⟩

/-- The rows of a file, which begin with no empty row. -/
theorem CodeFile.spaced {f : CodeFile} (hfree : ∀ p ∈ texts f.elements, p.blankRows = []) (level : Nat) :
    ∃ stop, Spaced true (f.rows level) stop := by
  have htexts : ∀ row ∈ bannerRows level f.banner, row ≠ .bare :=
    ne_bare_of_blankRows (blankRows_bannerRows level f.banner)
  obtain ⟨stop, helements⟩ := spaced_elementRows true level f.elements hfree true
  rw [rows, bannerGap]
  split
  · rename_i hnone
    rcases hnone with hbanner | hnone
    · rw [hbanner, List.nil_append, List.nil_append]
      exact ⟨stop, helements⟩
    · rw [hnone, elementRows_nil, List.append_nil, List.append_nil]
      by_cases hbanner : bannerRows level f.banner = []
      · exact ⟨true, by rw [hbanner]; exact .nil⟩
      · exact ⟨false, .of_texts htexts hbanner⟩
  · rename_i hboth
    rw [not_or] at hboth
    exact ⟨stop, ((Spaced.of_texts htexts hboth.1).append (.bare .nil)).append helements⟩

/-! ## How many empty rows there are -/

theorem count_gapRows (pairs : List (Element × Element)) :
    (pairs.flatMap fun pair => pair.1.gapRows).count .empty = pairs.countP fun pair => !pair.1.isLoop := by
  induction pairs with
  | nil => rfl
  | cons pair rest ih =>
    rw [List.flatMap_cons, List.count_append, ih, List.countP_cons, Element.gapRows]
    cases pair.1.isLoop with
    | true => simp
    | false => simp [Nat.add_comm]

/-- Where no text has blank lines, elements make one empty row for each loop, for each two siblings of which the
first is no loop, and for each method that is not the first member of its class. -/
theorem count_ownBlankRows (es : List Element) (hfree : ∀ e ∈ es, ∀ p ∈ e.ownTexts, p.blankRows = []) :
    (es.flatMap Element.ownBlankRows).count .empty = es.countP Element.isLoop +
      ((es.flatMap Element.bodies).flatMap siblingPairs).countP (fun pair => !pair.1.isLoop) +
        (es.flatMap Element.laterMethods).length := by
  induction es with
  | nil => rfl
  | cons e rest ih =>
    rw [List.forall_mem_cons] at hfree
    have htexts : e.ownTexts.flatMap Part.blankRows = [] := List.flatMap_eq_nil_iff.mpr hfree.1
    have hloop : (if e.isLoop then [BlankRow.empty] else []).count .empty = if e.isLoop then 1 else 0 := by
      cases e.isLoop <;> rfl
    have hmethods : (e.laterMethods.map fun _ => BlankRow.empty).count .empty = e.laterMethods.length := by
      rw [List.map_const', List.count_replicate_self]
    rw [List.flatMap_cons, List.count_append, ih hfree.2, Element.ownBlankRows, htexts]
    simp only [List.append_nil, List.count_append, hloop, hmethods, count_gapRows, List.countP_cons,
      List.flatMap_cons, List.flatMap_append, List.countP_append, List.length_append]
    omega

theorem emptyRows_eq_nil {texts : List String} (h : ∀ line ∈ texts, isBlank line = false) :
    emptyRows texts = [] := by
  rw [emptyRows, List.map_eq_nil_iff, List.filter_eq_nil_iff]
  exact fun line hline => Bool.eq_false_iff.mp (h line hline)

theorem laterRows_eq_nil {texts : List String} (h : ∀ line ∈ texts, isBlank line = false) (isLast : Bool) :
    laterRows texts isLast = [] := by
  have hempty : emptyRows texts.dropLast = [] :=
    emptyRows_eq_nil fun line hline => h line (List.dropLast_subset texts hline)
  have hlast : texts.getLast?.toList.filter isBlank = [] := by
    refine List.filter_eq_nil_iff.mpr fun line hline => Bool.eq_false_iff.mp (h line ?_)
    exact List.mem_of_getLast? (Option.mem_toList.mp hline)
  rw [laterRows, hempty, hlast]
  cases isLast <;> rfl

/-- A text without blank lines makes no blank rows. -/
theorem Part.blankRows_eq_nil {p : Part} (h : p.isWord = false → ∀ line ∈ lines p.text, isBlank line = false) :
    p.blankRows = [] := by
  cases p with
  | word text => rfl
  | statement text => exact emptyRows_eq_nil (h rfl)
  | value text => exact laterRows_eq_nil (fun line hline => h rfl line (List.mem_of_mem_tail hline)) false
  | lastValue text => exact laterRows_eq_nil (fun line hline => h rfl line (List.mem_of_mem_tail hline)) true

/-- Whether a banner of at least one line stands over at least one element. -/
def CodeFile.bannerStandsOver (f : CodeFile) : Bool :=
  (f.banner.any fun text => !(lines text).isEmpty) && !f.elements.isEmpty

theorem CodeFile.count_bannerGap (f : CodeFile) (level : Nat) :
    (blankRows (bannerGap level f.banner f.elements)).count .empty = if f.bannerStandsOver then 1 else 0 := by
  have hbanner : bannerRows level f.banner = [] ↔ (f.banner.any fun text => !(lines text).isEmpty) = false := by
    cases f.banner with
    | none => exact ⟨fun _ => rfl, fun _ => rowsOf_nil⟩
    | some text => simp [bannerRows_some]
  rw [bannerGap, bannerStandsOver]
  split
  · rename_i hnone
    rw [hbanner, ← List.isEmpty_iff] at hnone
    rcases hnone with hnone | hnone
    · rw [hnone]; rfl
    · rw [hnone, Bool.not_true, Bool.and_false]; rfl
  · rename_i hboth
    rw [not_or, hbanner, ← List.isEmpty_iff, Bool.not_eq_false, Bool.not_eq_true] at hboth
    rw [hboth.1, hboth.2]; rfl

/-- Where no text has blank lines, only an empty row of a file is written as an empty line. -/
theorem CodeFile.line_eq_empty_iff {f : CodeFile} (hfree : ∀ p ∈ texts f.elements, p.blankRows = [])
    (indent : Indent) {level : Nat} {row : Row} (hrow : row ∈ f.rows level) :
    row.line indent = "" ↔ row = .bare := by
  cases row with
  | bare => exact ⟨fun _ => rfl, fun _ => rfl⟩
  | «at» depth text =>
    refine ⟨fun hline => ?_, fun h => by cases h⟩
    obtain ⟨-, rfl⟩ := String.append_eq_empty_iff.mp hline
    -- The text would be a row of spaces, and those come from blank lines.
    have hspaces : .spaces "" ∈ blankRows (f.rows level) :=
      List.mem_filterMap.mpr ⟨_, hrow, by rw [Row.blank?, isBlank_empty]; rfl⟩
    obtain ⟨value, hvalue, hlast⟩ := spaces_mem_blankRows.mp hspaces
    have hmade := Part.spaces_mem_blankRows.mpr ⟨value, rfl, hlast⟩
    rw [hfree _ hvalue] at hmade
    exact absurd hmade List.not_mem_nil

/-- There are as many empty lines as empty rows, where only these are written as empty lines. -/
theorem count_empty_lines {rows : List Row} {indent : Indent}
    (hbare : ∀ row ∈ rows, row.line indent = "" ↔ row = .bare) :
    (rows.map (Row.line indent)).count "" = (blankRows rows).count .empty := by
  rw [blankRows, List.count_filterMap, List.count, List.countP_map]
  refine List.countP_congr fun row hrow => ?_
  rw [Function.comp_apply, beq_iff_eq, hbare row hrow]
  cases row with
  | bare => simp [Row.blank?]
  | «at» depth text => cases h : isBlank text <;> simp [Row.blank?, h]

/-- Where no line of a verbatim text is blank, the lines of the text of a file do not begin with an empty one,
no two empty ones come together, and there are as many of them as loops at any depth, pairs of siblings at any
depth of which the first is no loop, methods that are not the first member of their class, and one more under a
banner. -/
theorem CodeFile.renderAt_spacing (f : CodeFile) (hvalid : f.validate = .ok ())
    (hwords : SingleLineWords f.elements)
    (hink : ∀ p ∈ texts f.elements, p.isWord = false → ∀ line ∈ lines p.text, isBlank line = false)
    (indent : Indent) (level : Nat) :
    ∃ text, f.renderAt indent level = .ok text ∧ (writtenLines text).head? ≠ some "" ∧
      (writtenLines text).IsChain (fun line next => line = "" → next ≠ "") ∧
      (writtenLines text).count "" = (allDepths f.elements).countP Element.isLoop +
        ((f.elements.map .element :: (allDepths f.elements).flatMap Element.bodies).flatMap siblingPairs).countP
          (fun pair => !pair.1.isLoop) +
        ((allDepths f.elements).flatMap Element.laterMethods).length + if f.bannerStandsOver then 1 else 0 := by
  have hfree : ∀ p ∈ texts f.elements, p.blankRows = [] := fun p hp => Part.blankRows_eq_nil (hink p hp)
  have hbare : ∀ row ∈ f.rows level, row.line indent = "" ↔ row = .bare :=
    fun row hrow => line_eq_empty_iff hfree indent hrow
  obtain ⟨stop, hspaced⟩ := spaced hfree level
  obtain ⟨hhead, hchain⟩ := hspaced.isChain
  refine ⟨f.text indent level, renderAt_of_valid hvalid indent level, ?_⟩
  rw [writtenLines_text hvalid hwords]
  refine ⟨?_, ?_, ?_⟩
  · rw [List.head?_map]
    intro hempty
    obtain ⟨row, hrow, hline⟩ := Option.map_eq_some_iff.mp hempty
    exact hhead rfl (hrow.trans (congrArg some ((hbare row (List.mem_of_mem_head? hrow)).mp hline)))
  · rw [List.isChain_map]
    refine hchain.imp_of_mem_imp fun row next hrow hnext hbares => ?_
    rw [hbare row hrow, Ne, hbare next hnext]
    exact hbares
  · have helements := count_ownBlankRows (allDepths f.elements) fun e he p hp =>
      hfree p (List.mem_flatMap.mpr ⟨e, he, hp⟩)
    rw [count_empty_lines hbare, (f.blankRows_perm level).count_eq, List.count_append, List.count_append,
      count_bannerGap, count_gapRows, helements, List.flatMap_cons, List.countP_append]
    omega

/-- A banner over a class and an alias: an empty line under the banner, after the loop, before the second method
and after the class. -/
theorem CodeFile.renderAt_spacing_class :
    ∃ text, (CodeFile.mk (some "made") [.classDecl { name := "A" }
        [⟨{ name := "f" }, [.element (.forLoop {} []), .element (.typeDecl { name := "T", value := "X" })]⟩,
          ⟨{ name := "g" }, []⟩],
        .typeDecl { name := "U", value := "Y" }]).renderAt .tab 0 = .ok text ∧
      (writtenLines text).count "" = 4 := by
  obtain ⟨text, hrender, -, -, hcount⟩ := renderAt_spacing
    (CodeFile.mk (some "made") [.classDecl { name := "A" }
      [⟨{ name := "f" }, [.element (.forLoop {} []), .element (.typeDecl { name := "T", value := "X" })]⟩,
        ⟨{ name := "g" }, []⟩],
      .typeDecl { name := "U", value := "Y" }]) rfl (by decide) (by decide +kernel) .tab 0
  exact ⟨text, hrender, hcount.trans (by decide +kernel)⟩

end TypeScribe

import TypeScribe.Proofs.FileRows
import TypeScribe.Proofs.Places

/-!
# Bodies as runs

A body falls into runs: single verbatim items, and elements that follow each other, as many as there are. A
verbatim item comes to its lines. A run of elements comes to what a file of these elements comes to when none
of them is exported; nothing stands between two runs.

* `statements_runs`, `runs_maximal`: the runs hold the items in order, and are as long as they can be.
* `rowsOf_body`: the rows of a body are those of its runs, one after the other.
* `render_runs`: the runs of a body whose elements lack nothing are rendered to the rows of the body.
* `fragments_eq_nil_iff`: a body comes to nothing exactly when all its items are texts without lines.
-/

namespace TypeScribe

/-- A longest stretch of a body without a change from texts to elements or back. -/
inductive Run where
  /-- One verbatim item. -/
  | raw (text : String)
  /-- Elements that follow each other. -/
  | elements (es : List Element)

/-- Puts an element in front of runs, into the first one if that is a run of elements. -/
def consElement (e : Element) : List Run → List Run
  | .elements es :: more => .elements (e :: es) :: more
  | more => .elements [e] :: more

/-- The runs of a body. -/
def runs : List Statement → List Run
  | [] => []
  | .raw text :: rest => .raw text :: runs rest
  | .element e :: rest => consElement e (runs rest)

/-- The items of a run. -/
def Run.statements : Run → List Statement
  | .raw text => [.raw text]
  | .elements es => es.map .element

/-- An element that is not marked as exported itself; what it holds stays as it is. -/
def Element.unexported : Element → Element
  | .constDecl decl => .constDecl { decl with exported := false }
  | .typeDecl decl => .typeDecl { decl with exported := false }
  | .interfaceDecl decl => .interfaceDecl { decl with exported := false }
  | .functionDecl head body => .functionDecl { head with exported := false } body
  | .classDecl head methods => .classDecl { head with exported := false } methods
  | .enumDecl decl => .enumDecl { decl with exported := false }
  | e => e

/-- A verbatim item without lines yields no line. -/
def Statement.isSilent : Statement → Bool
  | .raw text => (lines text).isEmpty
  | .element _ => false

/-- The text of a run whose lines start at a level: the lines of a verbatim item, those of spaces only as
empty lines, or the file of elements of which none is exported. -/
def Run.render (indent : Indent) (level : Nat) : Run → Except RenderError String
  | .raw text => .ok <| String.join <|
    (lines text).map fun line => if isBlank line then "\n" else indent.lead level ++ line ++ "\n"
  | .elements es => (CodeFile.ofElements (es.map Element.unexported)).renderAt indent level

/-- The rows of a run. -/
def Run.rows (level : Nat) : Run → List Row
  | .raw text => rowsOf level (rawFragments text)
  | .elements es => elementRows false level es

theorem statements_consElement (e : Element) (rs : List Run) :
    (consElement e rs).flatMap Run.statements = .element e :: rs.flatMap Run.statements := by
  unfold consElement
  split
  · rw [List.flatMap_cons, List.flatMap_cons, Run.statements, List.map_cons, List.cons_append]; rfl
  · rw [List.flatMap_cons]; rfl

/-- The runs of a body hold its items in order. -/
theorem statements_runs (body : List Statement) : (runs body).flatMap Run.statements = body := by
  fun_induction runs body with
  | case1 => rfl
  | case2 text rest ih => rw [List.flatMap_cons, ih]; rfl
  | case3 e rest ih => rw [statements_consElement, ih]

/-- The runs are the longest ones: two runs of elements never follow each other. -/
theorem runs_maximal (body : List Statement) :
    ∀ before es fs after, runs body ≠ before ++ .elements es :: .elements fs :: after := by
  fun_induction runs body with
  | case1 =>
    intro before es fs after h
    exact absurd h.symm (List.append_ne_nil_of_right_ne_nil before (List.cons_ne_nil _ _))
  | case2 text rest ih =>
    intro before es fs after h
    cases before with
    | nil => exact nomatch h
    | cons first before => exact ih before es fs after (List.cons.inj h).2
  | case3 e rest ih =>
    intro before es fs after h
    unfold consElement at h
    split at h
    · rename_i longest more hrest
      rw [hrest] at ih
      cases before with
      | nil => exact ih [] longest fs after (congrArg (_ :: ·) (List.cons.inj h).2)
      | cons first before =>
        exact ih (.elements longest :: before) es fs after (congrArg (_ :: ·) (List.cons.inj h).2)
    · rename_i hother
      cases before with
      | nil => exact hother fs after (List.cons.inj h).2
      | cons first before => exact ih before es fs after (List.cons.inj h).2

/-! ## Elements that are not exported -/

theorem exportMark_false (topLevel : Bool) : exportMark false topLevel = "" := rfl

theorem exportMark_nested (exported : Bool) : exportMark exported false = "" := by
  rw [exportMark, Bool.and_false]; rfl

namespace Element

/-- At the top level an element that is not exported is written as any element is inside a body. -/
theorem fragments_unexported (e : Element) : e.unexported.fragments true = e.fragments false := by
  cases e with
  | constDecl decl =>
    simp only [unexported, fragments, Constant.fragments, exportMark_false, exportMark_nested]
  | typeDecl decl =>
    simp only [unexported, fragments, TypeAlias.fragments, exportMark_false, exportMark_nested]
  | interfaceDecl decl =>
    simp only [unexported, fragments, Interface.fragments, exportMark_false, exportMark_nested]
  | functionDecl head body =>
    simp only [unexported, fragments, FunctionHead.text, exportMark_false, exportMark_nested]
  | classDecl head methods =>
    simp only [unexported, fragments, ClassHead.text, exportMark_false, exportMark_nested]
  | enumDecl decl =>
    simp only [unexported, fragments, Enumeration.fragments, exportMark_false, exportMark_nested]
  | ifElse condition body otherwise =>
    show fragments true (.ifElse condition body otherwise) = _
    cases otherwise <;> rw [fragments, fragments]
  | arrowFunction signature body =>
    show fragments true (.arrowFunction signature body) = _
    rw [fragments, fragments]
  | forLoop clauses body =>
    show fragments true (.forLoop clauses body) = _
    rw [fragments, fragments]
  | forOfLoop iteration body =>
    show fragments true (.forOfLoop iteration body) = _
    rw [fragments, fragments]

theorem isLoop_unexported (e : Element) : e.unexported.isLoop = e.isLoop := by
  cases e <;> rfl

theorem missing?_unexported (e : Element) : e.unexported.missing? = e.missing? := by
  cases e with
  | functionDecl head body => rw [unexported, missing?, missing?]; rfl
  | classDecl head methods => rw [unexported, missing?, missing?]; rfl
  | _ => rfl

end Element

theorem elementRows_unexported (level : Nat) (es : List Element) :
    elementRows true level (es.map Element.unexported) = elementRows false level es := by
  induction es with
  | nil => rfl
  | cons e es ih =>
    cases es with
    | nil => simp only [List.map_cons, List.map_nil, elementRows, Element.fragments_unexported]
    | cons next rest =>
      have hne : (next :: rest).map Element.unexported ≠ [] := List.cons_ne_nil _ _
      rw [List.map_cons, elementRows_cons _ _ _ hne, elementRows_cons _ _ _ (List.cons_ne_nil _ _), ih,
        Element.gap, Element.gap, Element.isLoop_unexported, Element.fragments_unexported]

/-! ## The rows of a body -/

/-- What stands in front of a body's first element: the gap of the element before it. -/
def gapFragments (e : Element) : List Fragment :=
  if e.isLoop then [] else [.blank]

theorem rowsOf_gapFragments (level : Nat) (e : Element) : rowsOf level (gapFragments e) = e.gap := by
  unfold gapFragments Element.gap
  split
  · exact rowsOf_nil
  · rw [rowsOf_singleton, Fragment.rows]

theorem fragments_element (gap : List Fragment) (e : Element) (rest : List Statement) :
    Statement.fragments gap (.element e :: rest) =
      gap ++ e.fragments false ++ Statement.fragments (gapFragments e) rest := by
  rw [Statement.fragments, Element.endsWithBlank_fragments, gapFragments]

theorem fragments_raw (gap : List Fragment) (text : String) (rest : List Statement) :
    Statement.fragments gap (.raw text :: rest) = rawFragments text ++ Statement.fragments [] rest := by
  rw [Statement.fragments]

theorem consElement_eq (e : Element) (rs : List Run) :
    ∃ es more, consElement e rs = .elements (e :: es) :: more := by
  unfold consElement
  split
  · exact ⟨_, _, rfl⟩
  · exact ⟨_, _, rfl⟩

/-- The gap after an element is written only in front of an element right after it, one of its run. -/
theorem rowsOf_after_element (level : Nat) (e : Element) (rest : List Statement)
    (ih : rowsOf level (Statement.fragments [] rest) = (runs rest).flatMap (Run.rows level)) :
    rowsOf level (e.fragments false) ++ rowsOf level (Statement.fragments (gapFragments e) rest) =
      (consElement e (runs rest)).flatMap (Run.rows level) := by
  cases rest with
  | nil => simp only [Statement.fragments, runs, consElement, List.flatMap_cons, List.flatMap_nil, Run.rows,
      elementRows, rowsOf_nil, List.append_nil]
  | cons item more =>
    cases item with
    | raw text =>
      rw [fragments_raw, ← fragments_raw [], ih]
      show _ = (Run.elements [e] :: runs (.raw text :: more)).flatMap (Run.rows level)
      rw [List.flatMap_cons, Run.rows, elementRows]
    | element f =>
      have hgap : rowsOf level (Statement.fragments (gapFragments e) (.element f :: more)) =
          e.gap ++ rowsOf level (Statement.fragments [] (.element f :: more)) := by
        rw [fragments_element, fragments_element, List.nil_append, List.append_assoc, rowsOf_append,
          rowsOf_gapFragments]
      obtain ⟨es, later, hr⟩ := consElement_eq f (runs more)
      have hruns : runs (.element f :: more) = .elements (f :: es) :: later := hr
      rw [hgap, ih, hruns, consElement, List.flatMap_cons, List.flatMap_cons, Run.rows, Run.rows,
        elementRows_cons _ _ _ (List.cons_ne_nil _ _)]
      simp only [List.append_assoc]

/-- The rows of a body are those of its runs, one after the other. -/
theorem rowsOf_body (level : Nat) (body : List Statement) :
    rowsOf level (Statement.fragments [] body) = (runs body).flatMap (Run.rows level) := by
  fun_induction runs body with
  | case1 => rw [Statement.fragments]; exact rowsOf_nil
  | case2 text rest ih => rw [Statement.fragments, rowsOf_append, ih, List.flatMap_cons, Run.rows]
  | case3 e rest ih =>
    rw [fragments_element, List.nil_append, rowsOf_append, rowsOf_after_element level e rest ih]

/-- A body has no fragment exactly when none of its items yields a line. -/
theorem fragments_eq_nil_iff {gap : List Fragment} {body : List Statement} :
    Statement.fragments gap body = [] ↔ body.all Statement.isSilent = true := by
  induction body generalizing gap with
  | nil => rw [Statement.fragments]; exact ⟨fun _ => rfl, fun _ => rfl⟩
  | cons item rest ih =>
    rw [List.all_cons, Bool.and_eq_true]
    cases item with
    | raw text =>
      rw [fragments_raw, List.append_eq_nil_iff, ih, rawFragments, List.map_eq_nil_iff, Statement.isSilent,
        List.isEmpty_iff]
    | element e =>
      rw [fragments_element, List.append_eq_nil_iff, List.append_eq_nil_iff]
      exact ⟨fun h => absurd h.1.2 (e.fragments_ne_nil false), fun h => absurd h.1 Bool.false_ne_true⟩

/-! ## The text of a run -/

theorem Fragment.rows_ofLine (level : Nat) (line : String) :
    (Fragment.ofLine line).rows level = [if isBlank line then .bare else .at level line] := by
  unfold Fragment.ofLine
  split
  · rw [Fragment.rows]
  · rw [Fragment.rows]

/-- The lines of a verbatim item, as they are written. -/
theorem rowsText_rawFragments (indent : Indent) (level : Nat) (text : String) :
    rowsText indent (rowsOf level (rawFragments text)) =
      String.join ((lines text).map fun line =>
        if isBlank line then "\n" else indent.lead level ++ line ++ "\n") := by
  unfold rawFragments
  induction lines text with
  | nil => rw [List.map_nil, List.map_nil, rowsOf_nil, rowsText_nil, String.join_nil]
  | cons line rest ih =>
    rw [List.map_cons, List.map_cons, rowsOf_cons, rowsText_append, String.join_cons, ih,
      Fragment.rows_ofLine]
    split
    · rw [rowsText_bare]
    · rw [rowsText_singleton, Row.text]

/-- A run of elements that lack nothing is rendered to its rows. -/
theorem Run.render_eq_ok (indent : Indent) (level : Nat) (run : Run)
    (h : ∀ e, .element e ∈ run.statements → e.missing? = none) :
    run.render indent level = .ok (rowsText indent (run.rows level)) := by
  cases run with
  | raw text => rw [render, rows, rowsText_rawFragments]
  | elements es =>
    refine CodeFile.renderAt_eq_ok_iff.mpr ⟨firstDefect_eq_none_iff.mpr fun e he => ?_, ?_⟩
    · obtain ⟨e', he', rfl⟩ := List.mem_map.mp he
      rw [Element.missing?_unexported]
      exact h e' (List.mem_map_of_mem he')
    · rw [CodeFile.text_ofElements, elementRows_unexported, rows]

theorem mapM_eq_ok {α β ε : Type} {f : α → Except ε β} {g : α → β} {xs : List α}
    (h : ∀ x ∈ xs, f x = .ok (g x)) : xs.mapM f = .ok (xs.map g) := by
  induction xs with
  | nil => rfl
  | cons x xs ih =>
    rw [List.mapM_cons, h x List.mem_cons_self, ih fun y hy => h y (List.mem_cons_of_mem _ hy)]
    rfl

/-- The runs of a body whose elements lack nothing are rendered to the rows of the body. -/
theorem render_runs (indent : Indent) (level : Nat) (body : List Statement)
    (h : ∀ e, .element e ∈ body → e.missing? = none) :
    ∃ texts, (runs body).mapM (Run.render indent level) = .ok texts ∧
      String.join texts = rowsText indent (rowsOf level (Statement.fragments [] body)) := by
  have hruns : ∀ run ∈ runs body, run.render indent level = .ok (rowsText indent (run.rows level)) := by
    refine fun run hr => run.render_eq_ok indent level fun e he => h e ?_
    rw [← statements_runs body]
    exact List.mem_flatMap.mpr ⟨run, hr, he⟩
  exact ⟨_, mapM_eq_ok hruns, by rw [← rowsText_flatMap, rowsOf_body]⟩

end TypeScribe

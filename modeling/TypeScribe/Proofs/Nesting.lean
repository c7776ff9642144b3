import TypeScribe.Proofs.Bodies
import TypeScribe.Proofs.Complete

/-!
# Bodies inside trees

A construct with a body in braces stands at the top level or inside the body of another one. Wherever it
stands, it is written as its header line, its body one level deeper, and its closing line, and what stands
around it does not depend on the body.

* `Construct.render_nested`: the text of a construct at any place of a file.
-/

namespace TypeScribe

/-- A construct that has a body in braces, without the body. -/
inductive Construct where
  | function (head : FunctionHead)
  | arrowFunction (signature : Signature)
  /-- A method, with its class and the methods before and after it. -/
  | method (parent : ClassHead) (before : List Method) (head : MethodHead) (after : List Method)
  /-- The first branch of a condition, with the second one if there is one. -/
  | ifBranch (condition : String) (otherwise : Option (List Statement))
  /-- The second branch of a condition, with the first one. -/
  | elseBranch (condition : String) (body : List Statement)
  | forLoop (clauses : LoopClauses)
  | forOfLoop (iteration : Iteration)

namespace Construct

/-- The element that a construct makes up with a body. -/
def withBody : Construct → List Statement → Element
  | .function head, body => .functionDecl head body
  | .arrowFunction signature, body => .arrowFunction signature body
  | .method parent before head after, body => .classDecl parent (before ++ ⟨head, body⟩ :: after)
  | .ifBranch condition otherwise, body => .ifElse condition body otherwise
  | .elseBranch condition body, otherwise => .ifElse condition body (some otherwise)
  | .forLoop clauses, body => .forLoop clauses body
  | .forOfLoop iteration, body => .forOfLoop iteration body

/-- The header line without the brace that opens the body. -/
def header (topLevel : Bool) : Construct → String
  | .function head => head.text topLevel
  | .arrowFunction signature => signature.text ++ " =>"
  | .method _ _ head _ => head.text
  | .ifBranch condition _ => branchText condition
  | .elseBranch .. => closeBrace ++ " else"
  | .forLoop clauses => clauses.text
  | .forOfLoop iteration => iteration.text

/-- What follows the closing brace on its line. -/
def suffix : Construct → String
  | .arrowFunction _ => ";"
  | .ifBranch _ (some _) => " else " ++ openBrace
  | _ => ""

/-- Whether an empty body leaves just the header line: not where a condition has two branches. -/
def collapses : Construct → Bool
  | .ifBranch _ (some _) | .elseBranch .. => false
  | _ => true

/-- The levels from the first line of the element to the header line. -/
def inset : Construct → Nat
  | .method .. => 1
  | _ => 0

/-- The text of a construct whose header line stands at a level. -/
def render (topLevel : Bool) (indent : Indent) (level : Nat) (c : Construct) (body : List Statement) :
    Except RenderError String := do
  let lead := indent.lead level
  if c.collapses && body.all Statement.isSilent then
    return lead ++ c.header topLevel ++ " " ++ openBrace ++ closeBrace ++ c.suffix ++ "\n"
  let inner ← (runs body).mapM (Run.render indent (level + 1))
  return lead ++ c.header topLevel ++ " " ++ openBrace ++ "\n" ++ String.join inner ++
    (lead ++ closeBrace ++ c.suffix ++ "\n")

/-- The rows of a construct whose header line stands at a level. -/
def rows (topLevel : Bool) (level : Nat) (c : Construct) (body : List Statement) : List Row :=
  if c.collapses && body.all Statement.isSilent then
    [.at level (c.header topLevel ++ " " ++ openBrace ++ closeBrace ++ c.suffix)]
  else
    .at level (c.header topLevel ++ " " ++ openBrace) :: rowsOf (level + 1) (Statement.fragments [] body) ++
      [.at level (closeBrace ++ c.suffix)]

end Construct

/-- A place for an element in the body of a construct. -/
structure Site where
  construct : Construct
  before : List Statement
  after : List Statement

/-- A construct with a body, inside the bodies of others; the outermost place comes first. -/
def nest (c : Construct) (body : List Statement) : List Site → Element
  | [] => c.withBody body
  | s :: rest => s.construct.withBody (s.before ++ .element (nest c body rest) :: s.after)

/-- The levels from the first line of the outermost element to that of the innermost one. -/
def nestDepth : List Site → Nat
  | [] => 0
  | s :: rest => s.construct.inset + 1 + nestDepth rest

/-! ## One construct -/

theorem headed_eq {header : String} (h : header ≠ "") : headed header = header ++ " " := by
  rw [headed, if_neg (by rwa [String.isEmpty_iff])]

theorem headed_branchText (condition : String) :
    headed (branchText condition) = branchText condition ++ " " :=
  headed_eq (by simp [branchText])

theorem braced_rows_of_ne_nil (level : Nat) (header : String) {body : List Fragment} (h : body ≠ [])
    (suffix : String) :
    (braced header body suffix).rows level =
      .at level (headed header ++ openBrace) :: rowsOf (level + 1) body ++
        [.at level (closeBrace ++ suffix)] := by
  rw [braced, if_neg (by rwa [List.isEmpty_iff]), Fragment.rows]
  rfl

/-- Braces around a body after a header: they collapse exactly when no item of the body yields a line. -/
theorem braced_rows (level : Nat) {header : String} (h : header ≠ "") (body : List Statement)
    (suffix : String) :
    (braced header (Statement.fragments [] body) suffix).rows level =
      if body.all Statement.isSilent then [.at level (header ++ " " ++ openBrace ++ closeBrace ++ suffix)]
      else .at level (header ++ " " ++ openBrace) :: rowsOf (level + 1) (Statement.fragments [] body) ++
        [.at level (closeBrace ++ suffix)] := by
  by_cases hs : body.all Statement.isSilent = true
  · rw [if_pos hs, braced, if_pos (List.isEmpty_iff.mpr (fragments_eq_nil_iff.mpr hs)), Fragment.rows,
      headed_eq h]
  · rw [if_neg hs, braced_rows_of_ne_nil level header (fun he => hs (fragments_eq_nil_iff.mp he)),
      headed_eq h]

namespace Construct

theorem header_ne_empty (topLevel : Bool) (c : Construct) : c.header topLevel ≠ "" := by
  cases c with
  | method parent before head after =>
    rw [header, MethodHead.text]
    split
    · simp [MethodHead.constructorName]
    · simp [Signature.text]
  | _ => simp [header, FunctionHead.text, branchText, LoopClauses.text, Iteration.text]

theorem isLoop_withBody (c : Construct) (body body' : List Statement) :
    (c.withBody body).isLoop = (c.withBody body').isLoop := by
  cases c <;> rfl

/-- A construct that collapses where its body is silent, as braces around the body. -/
theorem rows_of_collapses {c : Construct} (h : c.collapses = true) (topLevel : Bool) (level : Nat)
    (body : List Statement) :
    c.rows topLevel level body =
      (braced (c.header topLevel) (Statement.fragments [] body) c.suffix).rows level := by
  rw [braced_rows level (c.header_ne_empty topLevel), rows, h, Bool.true_and]

/-- A construct that spans lines: because it never collapses, or because its body is not silent. -/
theorem rows_of_spanning {c : Construct} {body : List Statement}
    (h : (c.collapses && body.all Statement.isSilent) = false) (topLevel : Bool) (level : Nat) :
    c.rows topLevel level body =
      .at level (c.header topLevel ++ " " ++ openBrace) :: rowsOf (level + 1) (Statement.fragments [] body) ++
        [.at level (closeBrace ++ c.suffix)] := by
  rw [rows, h, if_neg Bool.false_ne_true]

/-- A body with an element in it is not silent. -/
theorem spanning_of_element (c : Construct) (before : List Statement) (e : Element) (after : List Statement) :
    (c.collapses && (before ++ .element e :: after).all Statement.isSilent) = false := by
  rw [List.all_append, List.all_cons, Statement.isSilent, Bool.false_and, Bool.and_false, Bool.and_false]

end Construct

/-- The fragments before a method and after it do not depend on its body. -/
theorem fragments_around_method (head : MethodHead) (after : List Method) (isFirst : Bool)
    (before : List Method) :
    ∃ pre, ∀ body, Method.fragments isFirst (before ++ ⟨head, body⟩ :: after) =
      pre ++ braced head.text (Statement.fragments [] body) "" :: Method.fragments false after := by
  induction before generalizing isFirst with
  | nil => exact ⟨if isFirst then [] else [.blank], fun body => by rw [List.nil_append, Method.fragments]⟩
  | cons m before ih =>
    obtain ⟨first, items⟩ := m
    obtain ⟨pre, hpre⟩ := ih false
    refine ⟨(if isFirst then [] else [.blank]) ++ braced first.text (Statement.fragments [] items) "" :: pre,
      fun body => ?_⟩
    rw [List.cons_append, Method.fragments, hpre, List.append_assoc, List.cons_append]

theorem elseText_eq : elseText = closeBrace ++ (" else " ++ openBrace) := by
  rw [elseText, String.append_assoc]

/-- The rows of an element around the rows of a construct in it do not depend on the body of the construct. -/
theorem Construct.rowsOf_withBody (c : Construct) (topLevel : Bool) (level : Nat) :
    ∃ before after, ∀ body, rowsOf level ((c.withBody body).fragments topLevel) =
      before ++ c.rows topLevel (level + c.inset) body ++ after := by
  have alone : ∀ body, rowsOf level [braced (c.header topLevel) (Statement.fragments [] body) c.suffix] =
      [] ++ (braced (c.header topLevel) (Statement.fragments [] body) c.suffix).rows level ++ [] := by
    intro body
    rw [rowsOf_singleton, List.append_nil, List.nil_append]
  cases c with
  | function head =>
    refine ⟨[], [], fun body => ?_⟩
    rw [rows_of_collapses rfl, withBody, Element.fragments]
    exact alone body
  | arrowFunction signature =>
    refine ⟨[], [], fun body => ?_⟩
    rw [rows_of_collapses rfl, withBody, Element.fragments]
    exact alone body
  | method parent before head after =>
    obtain ⟨pre, hpre⟩ := fragments_around_method head after parent.properties.isEmpty before
    refine ⟨.at level (headed (parent.text topLevel) ++ openBrace) ::
        rowsOf (level + 1) (parent.properties.map ClassProperty.fragment ++ pre),
      rowsOf (level + 1) (Method.fragments false after) ++ [.at level (closeBrace ++ "")], fun body => ?_⟩
    have hne : parent.properties.map ClassProperty.fragment ++
        (pre ++ braced head.text (Statement.fragments [] body) "" :: Method.fragments false after) ≠ [] := by
      simp
    rw [rows_of_collapses rfl, withBody, Element.fragments, hpre, rowsOf_singleton,
      braced_rows_of_ne_nil level _ hne]
    simp only [rowsOf_append, rowsOf_cons, List.append_assoc, List.cons_append, header, suffix, inset]
  | ifBranch condition otherwise =>
    cases otherwise with
    | none =>
      refine ⟨[], [], fun body => ?_⟩
      rw [rows_of_collapses rfl, withBody, Element.fragments]
      exact alone body
    | some otherwise =>
      refine ⟨[], rowsOf (level + 1) (Statement.fragments [] otherwise) ++ [.at level closeBrace],
        fun body => ?_⟩
      rw [rows_of_spanning rfl, withBody, Element.fragments, branchFragments_rows,
        headed_branchText, elseText_eq]
      simp only [header, suffix, inset, List.nil_append, List.append_assoc, List.cons_append, Nat.add_zero]
  | elseBranch condition body =>
    refine ⟨.at level (branchText condition ++ " " ++ openBrace) ::
      rowsOf (level + 1) (Statement.fragments [] body), [], fun otherwise => ?_⟩
    rw [rows_of_spanning rfl, withBody, Element.fragments, branchFragments_rows,
      headed_branchText]
    simp only [header, suffix, inset, List.append_nil, List.append_assoc, List.cons_append, Nat.add_zero,
      String.append_empty]
    rfl
  | forLoop clauses =>
    refine ⟨[], [.bare], fun body => ?_⟩
    rw [rows_of_collapses rfl, withBody, Element.fragments, loopFragments_rows]
    rfl
  | forOfLoop iteration =>
    refine ⟨[], [.bare], fun body => ?_⟩
    rw [rows_of_collapses rfl, withBody, Element.fragments, loopFragments_rows]
    rfl

/-! ## Places in bodies and files -/

/-- The rows of a body around an element do not depend on the element, but for whether it is a loop. -/
theorem rowsOf_around_element (level : Nat) (isLoop : Bool) (gap : List Fragment)
    (before after : List Statement) :
    ∃ pre post, ∀ e : Element, e.isLoop = isLoop →
      rowsOf level (Statement.fragments gap (before ++ .element e :: after)) =
        pre ++ rowsOf level (e.fragments false) ++ post := by
  induction before generalizing gap with
  | nil =>
    refine ⟨rowsOf level gap, rowsOf level (Statement.fragments (if isLoop then [] else [.blank]) after), ?_⟩
    rintro e rfl
    rw [List.nil_append, fragments_element, rowsOf_append, rowsOf_append, gapFragments]
  | cons item before ih =>
    cases item with
    | raw text =>
      obtain ⟨pre, post, h⟩ := ih []
      refine ⟨rowsOf level (rawFragments text) ++ pre, post, fun e he => ?_⟩
      rw [List.cons_append, fragments_raw, rowsOf_append, h e he]
      simp only [List.append_assoc]
    | element first =>
      obtain ⟨pre, post, h⟩ := ih (gapFragments first)
      refine ⟨rowsOf level gap ++ rowsOf level (first.fragments false) ++ pre, post, fun e he => ?_⟩
      rw [List.cons_append, fragments_element, rowsOf_append, rowsOf_append, h e he]
      simp only [List.append_assoc]

/-- The same at the top level. -/
theorem elementRows_around (level : Nat) (isLoop : Bool) (before after : List Element) :
    ∃ pre post, ∀ e : Element, e.isLoop = isLoop →
      elementRows true level (before ++ e :: after) = pre ++ rowsOf level (e.fragments true) ++ post := by
  refine ⟨elementRows true level before ++ gapAfter before,
    if after = [] then [] else (if isLoop then [] else [.bare]) ++ elementRows true level after, ?_⟩
  rintro e rfl
  rw [elementRows_append _ _ _ (List.cons_ne_nil _ _)]
  split
  · rename_i h
    rw [h, elementRows, List.append_nil]
  · rename_i h
    rw [elementRows_cons _ _ _ h, Element.gap]
    simp only [List.append_assoc]

theorem isLoop_nest (c : Construct) (sites : List Site) (body body' : List Statement) :
    (nest c body sites).isLoop = (nest c body' sites).isLoop := by
  cases sites with
  | nil => exact c.isLoop_withBody body body'
  | cons s rest => exact s.construct.isLoop_withBody _ _

/-- The rows of an element around the rows of a construct anywhere in it do not depend on the body of the
construct. -/
theorem rowsOf_nest (c : Construct) (sites : List Site) (topLevel : Bool) (level : Nat) :
    ∃ before after, ∀ body, rowsOf level ((nest c body sites).fragments topLevel) =
      before ++ c.rows (topLevel && sites.isEmpty) (level + nestDepth sites + c.inset) body ++ after := by
  induction sites generalizing topLevel level with
  | nil =>
    rw [List.isEmpty_nil, Bool.and_true]
    exact c.rowsOf_withBody topLevel level
  | cons s rest ih =>
    obtain ⟨pre, post, hs⟩ := s.construct.rowsOf_withBody topLevel level
    obtain ⟨before, after, he⟩ := rowsOf_around_element (level + s.construct.inset + 1)
      (nest c [] rest).isLoop [] s.before s.after
    obtain ⟨inner, outer, hc⟩ := ih false (level + s.construct.inset + 1)
    refine ⟨pre ++ .at (level + s.construct.inset) (s.construct.header topLevel ++ " " ++ openBrace) ::
        (before ++ inner),
      outer ++ after ++ .at (level + s.construct.inset) (closeBrace ++ s.construct.suffix) :: post,
      fun body => ?_⟩
    have hdepth : level + s.construct.inset + 1 + nestDepth rest = level + nestDepth (s :: rest) := by
      rw [nestDepth]; omega
    have hflag : (topLevel && (s :: rest).isEmpty) = (false && rest.isEmpty) := by
      rw [List.isEmpty_cons, Bool.and_false, Bool.false_and]
    rw [nest, hs, Construct.rows_of_spanning (s.construct.spanning_of_element _ _ _),
      he _ (isLoop_nest c rest body []),
      hc, hdepth, hflag]
    simp only [List.append_assoc, List.cons_append, List.nil_append]

/-! ## Defects in bodies -/

theorem Construct.mem_bodies_withBody (c : Construct) (body : List Statement) :
    body ∈ (c.withBody body).bodies := by
  cases c with
  | method parent before head after =>
    exact List.mem_map_of_mem (List.mem_append_right before List.mem_cons_self)
  | elseBranch condition first => exact List.mem_cons_of_mem _ (List.mem_singleton_self _)
  | _ => exact List.mem_cons_self

/-- The elements in the body of a construct lack nothing, if the element that it makes up lacks nothing. -/
theorem Construct.missing?_of_withBody {c : Construct} {body : List Statement}
    (h : (c.withBody body).missing? = none)
    (e : Element) (he : .element e ∈ body) : e.missing? = none :=
  Element.missing?_of_bodies h body (c.mem_bodies_withBody body) e (mem_elementsOf.mpr he)

/-- What lacks nothing has nothing lacking in the bodies at any place in it. -/
theorem missing?_of_nest {c : Construct} {body : List Statement} {sites : List Site}
    (h : (nest c body sites).missing? = none) (e : Element) (he : .element e ∈ body) : e.missing? = none := by
  induction sites with
  | nil => exact Construct.missing?_of_withBody h e he
  | cons s rest ih =>
    exact ih (Construct.missing?_of_withBody h _ (List.mem_append_right s.before List.mem_cons_self))

/-! ## Rendering -/

/-- A construct whose body lacks nothing is rendered to its rows. -/
theorem Construct.render_eq_ok (c : Construct) (topLevel : Bool) (indent : Indent) (level : Nat)
    (body : List Statement) (h : ∀ e, .element e ∈ body → e.missing? = none) :
    c.render topLevel indent level body = .ok (rowsText indent (c.rows topLevel level body)) := by
  rw [render, rows]
  split
  · rw [rowsText_singleton, Row.text]
    simp only [String.append_assoc]
    rfl
  · obtain ⟨texts, hruns, hjoin⟩ := render_runs indent (level + 1) body h
    rw [hruns]
    show Except.ok _ = Except.ok _
    rw [hjoin, rowsText_append, rowsText_cons, rowsText_singleton, Row.text, Row.text]
    simp only [String.append_assoc]

/-- Wherever a construct stands in a valid file, the file holds its header line, its body as the runs of the
body come out by themselves one level deeper, and its closing line; the whole lines before and after these do
not depend on the body. -/
theorem Construct.render_nested (banner : Option String) (xs ys : List Element) (c : Construct)
    (sites : List Site) (indent : Indent) (level : Nat) :
    ∃ before after, (before = "" ∨ ∃ init, before = init ++ "\n") ∧
      ∀ body text, (CodeFile.mk banner (xs ++ nest c body sites :: ys)).renderAt indent level = .ok text →
        ∃ inner, c.render sites.isEmpty indent (level + nestDepth sites + c.inset) body = .ok inner ∧
          text = before ++ inner ++ after := by
  obtain ⟨pre, post, hfile⟩ := elementRows_around level (nest c [] sites).isLoop xs ys
  obtain ⟨first, last, helem⟩ := rowsOf_nest c sites true level
  refine ⟨rowsText indent (bannerRows level banner ++ bannerGap level banner (xs ++ nest c [] sites :: ys) ++
      pre ++ first), rowsText indent (last ++ post), rowsText_eq_empty_or_line _ _, fun body text h => ?_⟩
  obtain ⟨hdefect, rfl⟩ := CodeFile.renderAt_eq_ok_iff.mp h
  have hnest : (nest c body sites).missing? = none :=
    firstDefect_eq_none_iff.mp hdefect _ (List.mem_append_right xs List.mem_cons_self)
  have hgap : bannerGap level banner (xs ++ nest c body sites :: ys) =
      bannerGap level banner (xs ++ nest c [] sites :: ys) := by
    simp only [bannerGap, List.append_eq_nil_iff, List.cons_ne_nil, and_false]
  refine ⟨_, c.render_eq_ok _ indent _ body (missing?_of_nest hnest), ?_⟩
  rw [CodeFile.text_eq_rows, CodeFile.rows, hgap, hfile _ (isLoop_nest c sites body []), helem, Bool.true_and]
  simp only [rowsText_append, String.append_assoc]

/-- A loop in a method, with a verbatim line and two elements in its body. -/
theorem Construct.render_nested_loop_in_method :
    ∃ before inner after,
      (Construct.forOfLoop ⟨"x", "xs"⟩).render false .tab 2
          [.raw "a;", .element (.typeDecl { name := "T", value := "x", exported := true }),
            .element (.ifElse "x" [] none)] = .ok inner ∧
        "class A \x7b\n\trun() \x7b\n\t\tfor (const x of xs) \x7b\n\t\t\ta;\n\t\t\ttype T = x;\n\n" ++
          "\t\t\tif (x) \x7b\x7d\n\t\t\x7d\n\n\t\x7d\n\x7d\n" = before ++ inner ++ after := by
  obtain ⟨before, after, -, h⟩ := Construct.render_nested none [] [] (.forOfLoop ⟨"x", "xs"⟩)
    [⟨.method { name := "A" } [] { name := "run" } [], [], []⟩] .tab 0
  obtain ⟨inner, hinner, htext⟩ := h
    [.raw "a;", .element (.typeDecl { name := "T", value := "x", exported := true }),
      .element (.ifElse "x" [] none)]
    ("class A \x7b\n\trun() \x7b\n\t\tfor (const x of xs) \x7b\n\t\t\ta;\n\t\t\ttype T = x;\n\n" ++
      "\t\t\tif (x) \x7b\x7d\n\t\t\x7d\n\n\t\x7d\n\x7d\n") rfl
  exact ⟨before, inner, after, hinner, htext⟩

end TypeScribe

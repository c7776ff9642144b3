import TypeScribe.Element.Edit
import TypeScribe.Proofs.Nesting
import TypeScribe.Proofs.WrittenLines

/-!
# What does not show

The code of a file does not depend on the export flags of elements below the top level, nor on the modifiers and
the result of a constructor; nor does the error, if there is one. An export flag at the top level shows as one word
in front of the first line of its element, and nowhere else.

* `Element.essence`: an element without what does not show.
* `CodeFile.renderAt_map_essence`: elements are rendered as they are without what does not show.
* `CodeFile.text_makeExported`: what the export flag of an element changes.
* `CodeFile.renderAt_inert`: both.
-/

namespace TypeScribe

/-! ## What shows -/

/-- The head of a method without what does not show: a constructor has neither modifiers nor a result. -/
def MethodHead.essence (m : MethodHead) : MethodHead :=
  if m.isConstructor then { name := m.name, signature := { args := m.signature.args } } else m

mutual

/-- An element without what does not show below it. Its own export flag stays. -/
def Element.essence : Element → Element
  | .constDecl decl => .constDecl decl
  | .typeDecl decl => .typeDecl decl
  | .interfaceDecl decl => .interfaceDecl decl
  | .functionDecl head body => .functionDecl head (Statement.essences body)
  | .arrowFunction signature body => .arrowFunction signature (Statement.essences body)
  | .classDecl head methods => .classDecl head (Method.essences methods)
  | .enumDecl decl => .enumDecl decl
  | .ifElse condition body none => .ifElse condition (Statement.essences body) none
  | .ifElse condition body (some otherwise) =>
    .ifElse condition (Statement.essences body) (some (Statement.essences otherwise))
  | .forLoop clauses body => .forLoop clauses (Statement.essences body)
  | .forOfLoop iteration body => .forOfLoop iteration (Statement.essences body)

/-- The items of a body without what does not show: no element is exported. -/
def Statement.essences : List Statement → List Statement
  | [] => []
  | .raw text :: rest => .raw text :: Statement.essences rest
  | .element e :: rest => .element e.essence.unexported :: Statement.essences rest

/-- Methods without what does not show. -/
def Method.essences : List Method → List Method
  | [] => []
  | ⟨head, body⟩ :: rest => ⟨head.essence, Statement.essences body⟩ :: Method.essences rest

end

theorem MethodHead.text_essence (m : MethodHead) : m.essence.text = m.text := by
  unfold essence
  split
  · rename_i h
    have h' : MethodHead.isConstructor { name := m.name, signature := { args := m.signature.args } } = true := h
    rw [text, text, if_pos h, if_pos h']
  · rfl

theorem MethodHead.missing?_essence (m : MethodHead) : m.essence.missing? = m.missing? := by
  unfold essence
  split
  · rename_i h
    have h' : MethodHead.isConstructor { name := m.name, signature := { args := m.signature.args } } = true := h
    rw [missing?, missing?, if_pos h, if_pos h']
  · rfl

theorem Element.fragments_nested_unexported (e : Element) : e.unexported.fragments false = e.fragments false := by
  have twice : e.unexported.unexported = e.unexported := by cases e <;> rfl
  rw [← fragments_unexported e.unexported, twice, fragments_unexported]

mutual

/-- An element is laid out without what does not show. -/
theorem Element.fragments_essence (topLevel : Bool) :
    ∀ e : Element, e.essence.fragments topLevel = e.fragments topLevel
  | .constDecl _ | .typeDecl _ | .interfaceDecl _ | .enumDecl _ => by rw [Element.essence]
  | .functionDecl head body => by
    rw [Element.essence, Element.fragments, Element.fragments, Statement.fragments_essences]
  | .arrowFunction signature body => by
    rw [Element.essence, Element.fragments, Element.fragments, Statement.fragments_essences]
  | .classDecl head methods => by
    rw [Element.essence, Element.fragments, Element.fragments, Method.fragments_essences]
  | .ifElse condition body none => by
    rw [Element.essence, Element.fragments, Element.fragments, Statement.fragments_essences]
  | .ifElse condition body (some otherwise) => by
    rw [Element.essence, Element.fragments, Element.fragments, Statement.fragments_essences,
      Statement.fragments_essences]
  | .forLoop clauses body => by
    rw [Element.essence, Element.fragments, Element.fragments, Statement.fragments_essences]
  | .forOfLoop iteration body => by
    rw [Element.essence, Element.fragments, Element.fragments, Statement.fragments_essences]

theorem Statement.fragments_essences (gap : List Fragment) :
    ∀ body : List Statement, Statement.fragments gap (Statement.essences body) = Statement.fragments gap body
  | [] => by rw [Statement.essences]
  | .raw text :: rest => by
    rw [Statement.essences, Statement.fragments, Statement.fragments, Statement.fragments_essences]
  | .element e :: rest => by
    rw [Statement.essences, Statement.fragments, Statement.fragments, Element.fragments_nested_unexported,
      Element.fragments_essence, Statement.fragments_essences]

theorem Method.fragments_essences (isFirst : Bool) :
    ∀ methods : List Method, Method.fragments isFirst (Method.essences methods) = Method.fragments isFirst methods
  | [] => by rw [Method.essences]
  | ⟨head, body⟩ :: rest => by
    rw [Method.essences, Method.fragments, Method.fragments, MethodHead.text_essence,
      Statement.fragments_essences, Method.fragments_essences]

end

mutual

/-- An element lacks the same without what does not show. -/
theorem Element.missing?_essence : ∀ e : Element, e.essence.missing? = e.missing?
  | .constDecl _ | .typeDecl _ | .interfaceDecl _ | .enumDecl _ => by rw [Element.essence]
  | .functionDecl head body => by
    rw [Element.essence, Element.missing?, Element.missing?, Statement.missing?_essences]
  | .arrowFunction signature body => by
    rw [Element.essence, Element.missing?, Element.missing?, Statement.missing?_essences]
  | .classDecl head methods => by
    rw [Element.essence, Element.missing?, Element.missing?, Method.missing?_essences]
  | .ifElse condition body none => by
    rw [Element.essence, Element.missing?, Element.missing?, Statement.missing?_essences]
  | .ifElse condition body (some otherwise) => by
    rw [Element.essence, Element.missing?, Element.missing?, Statement.missing?_essences,
      Statement.missing?_essences]
  | .forLoop clauses body => by
    rw [Element.essence, Element.missing?, Element.missing?, Statement.missing?_essences]
  | .forOfLoop iteration body => by
    rw [Element.essence, Element.missing?, Element.missing?, Statement.missing?_essences]

theorem Statement.missing?_essences (field : String) (index : Nat) :
    ∀ body : List Statement,
      Statement.missing? field index (Statement.essences body) = Statement.missing? field index body
  | [] => by rw [Statement.essences]
  | .raw text :: rest => by
    rw [Statement.essences, Statement.missing?, Statement.missing?, Statement.missing?_essences]
  | .element e :: rest => by
    rw [Statement.essences, Statement.missing?, Statement.missing?, Element.missing?_unexported,
      Element.missing?_essence, Statement.missing?_essences]

theorem Method.missing?_essences (index : Nat) :
    ∀ methods : List Method, Method.missing? index (Method.essences methods) = Method.missing? index methods
  | [] => by rw [Method.essences]
  | ⟨head, body⟩ :: rest => by
    rw [Method.essences, Method.missing?, Method.missing?, MethodHead.missing?_essence,
      Statement.missing?_essences, Method.missing?_essences]

end

/-! ## The export flag -/

/-- The word in front of a declaration that is exported. -/
def exportWord : String := "export "

/-- Whether a declaration is exported; other elements have no export flag. -/
def Element.exported? : Element → Option Bool
  | .constDecl decl => some decl.exported
  | .typeDecl decl => some decl.exported
  | .interfaceDecl decl => some decl.exported
  | .functionDecl head _ => some head.exported
  | .classDecl head _ => some head.exported
  | .enumDecl decl => some decl.exported
  | .arrowFunction .. | .ifElse .. | .forLoop .. | .forOfLoop .. => none

/-- Rows that begin with a text at a level, and the same rows with the word for exports in front of this text. -/
def Exports (level : Nat) (plain marked : List Row) : Prop :=
  ∃ text rest, plain = .at level text :: rest ∧ marked = .at level (exportWord ++ text) :: rest

theorem exports_splice (level : Nat) (head text tail : String) :
    Exports level (rowsOf level (splice head text tail)) (rowsOf level (splice (exportWord ++ head) text tail)) := by
  unfold splice
  split
  · refine ⟨head ++ tail, [], ?_, ?_⟩ <;> rw [rowsOf_singleton, Fragment.rows]
    rw [String.append_assoc]
  · rename_i only _
    refine ⟨head ++ only ++ tail, [], ?_, ?_⟩ <;> rw [rowsOf_singleton, Fragment.rows]
    rw [String.append_assoc, String.append_assoc, String.append_assoc]
  · rename_i first next rest _
    refine ⟨head ++ first, rowsOf level (spliceRest tail (next :: rest)), ?_, ?_⟩ <;>
      rw [rowsOf_cons, Fragment.rows, List.singleton_append]
    rw [String.append_assoc]

theorem exportMark_true_top : exportMark true true = exportWord := rfl

/-- A braced body whose header is a text after the mark. -/
theorem exports_braced (level : Nat) {plain marked : String} (text : String) (hne : text ≠ "")
    (hplain : plain = exportMark false true ++ text) (hmarked : marked = exportMark true true ++ text)
    (body : List Fragment) (suffix : String) :
    Exports level (rowsOf level [braced plain body suffix]) (rowsOf level [braced marked body suffix]) := by
  have hne' : exportWord ++ text ≠ "" := by simp [hne]
  rw [exportMark_false, String.empty_append] at hplain
  rw [hplain, hmarked, exportMark_true_top, rowsOf_braced, rowsOf_braced, headed_eq hne, headed_eq hne']
  by_cases hb : body = []
  · refine ⟨_, [], if_pos hb, (if_pos hb).trans ?_⟩
    simp only [String.append_assoc]
  · refine ⟨_, _, if_neg hb, (if_neg hb).trans ?_⟩
    simp only [String.append_assoc]

theorem ClassHead.text_top (c : ClassHead) : c.text true = exportMark c.exported true ++ c.text false := by
  rw [text, text, exportMark_nested, String.empty_append]
  simp only [String.append_assoc]

/-- The export flag of a declaration shows in front of the first of its rows. -/
theorem exports_makeExported (level : Nat) {e : Element} (h : e.exported? = some false) :
    Exports level (rowsOf level (e.fragments true)) (rowsOf level (e.makeExported.fragments true)) := by
  cases e with
  | constDecl c =>
    obtain ⟨name, value, exported⟩ := c
    obtain rfl : exported = false := Option.some.inj h
    rw [Element.makeExported, Element.fragments, Element.fragments, Constant.fragments, Constant.fragments]
    cases value with
    | raw text =>
      have := exports_splice level ("const " ++ name ++ " =" ++ " ") text ";"
      simpa only [exportMark_false, exportMark_true_top, String.empty_append, String.append_assoc] using this
    | object entries =>
      exact exports_braced level ("const " ++ (name ++ " =")) (by simp) (by simp only [String.append_assoc])
        (by simp only [String.append_assoc]) _ _
  | typeDecl t =>
    obtain ⟨name, value, exported⟩ := t
    obtain rfl : exported = false := Option.some.inj h
    have := exports_splice level ("type " ++ name ++ " = ") value ";"
    simpa only [Element.makeExported, Element.fragments, TypeAlias.fragments, exportMark_false, exportMark_true_top,
      String.empty_append, String.append_assoc] using this
  | interfaceDecl i =>
    obtain ⟨name, properties, exported⟩ := i
    obtain rfl : exported = false := Option.some.inj h
    exact exports_braced level ("interface " ++ name) (by simp) String.append_assoc String.append_assoc _ _
  | functionDecl head body =>
    obtain ⟨name, signature, exported⟩ := head
    obtain rfl : exported = false := Option.some.inj h
    rw [Element.makeExported, Element.fragments, Element.fragments]
    exact exports_braced level ("function " ++ (name ++ signature.text)) (by simp)
      (by simp only [FunctionHead.text, String.append_assoc])
      (by simp only [FunctionHead.text, String.append_assoc]) _ _
  | classDecl head methods =>
    obtain ⟨name, parent, implements, properties, exported⟩ := head
    obtain rfl : exported = false := Option.some.inj h
    rw [Element.makeExported, Element.fragments, Element.fragments]
    exact exports_braced level (ClassHead.text false ⟨name, parent, implements, properties, false⟩)
      (by simp [ClassHead.text]) (ClassHead.text_top _) (ClassHead.text_top _) _ _
  | enumDecl e =>
    obtain ⟨name, members, exported⟩ := e
    obtain rfl : exported = false := Option.some.inj h
    exact exports_braced level ("enum " ++ name) (by simp) String.append_assoc String.append_assoc _ _
  | arrowFunction | ifElse | forLoop | forOfLoop => cases h

theorem Element.isLoop_makeExported (e : Element) : e.makeExported.isLoop = e.isLoop := by
  cases e <;> rfl

theorem Element.missing?_makeExported (e : Element) : e.makeExported.missing? = e.missing? := by
  cases e with
  | functionDecl head body => rw [makeExported, missing?, missing?]; rfl
  | classDecl head methods => rw [makeExported, missing?, missing?]; rfl
  | _ => rfl

/-- What follows an element depends on whether it is a loop, and not on what else it is. -/
theorem elementRows_first (level : Nat) (e : Element) (es : List Element) :
    ∃ after, ∀ x : Element, x.isLoop = e.isLoop →
      elementRows true level (x :: es) = rowsOf level (x.fragments true) ++ after := by
  cases es with
  | nil => exact ⟨[], fun x _ => by rw [elementRows, List.append_nil]⟩
  | cons next more =>
    refine ⟨e.gap ++ elementRows true level (next :: more), fun x hx => ?_⟩
    rw [elementRows, Element.gap, hx, ← Element.gap, List.append_assoc]

namespace CodeFile

/-- A file is rendered without what does not show. -/
theorem renderAt_map_essence (banner : Option String) (es : List Element) (indent : Indent) (level : Nat) :
    (CodeFile.mk banner (es.map Element.essence)).renderAt indent level =
      (CodeFile.mk banner es).renderAt indent level := by
  refine renderAt_congr ?_ ?_ ?_ indent level
  · rfl
  · show (es.map Element.essence).map (Element.fragments true) = es.map (Element.fragments true)
    rw [List.map_map]
    exact List.map_congr_left fun e _ => e.fragments_essence true
  · show (es.map Element.essence).map Element.missing? = es.map Element.missing?
    rw [List.map_map]
    exact List.map_congr_left fun e _ => e.missing?_essence

/-- What is written of a file when an element after some elements begins. -/
def writtenBefore (banner : Option String) (es : List Element) (indent : Indent) (level : Nat) : String :=
  (es.foldl writeElement ((Writer.start indent level).writeAll (bannerFragments banner))).separator.text

variable {indent : Indent} {level : Nat}

theorem foldl_writeElement_keeps (es : List Element) (w : Writer) :
    (es.foldl writeElement w).indent = w.indent ∧ (es.foldl writeElement w).level = w.level := by
  induction es generalizing w with
  | nil => exact ⟨rfl, rfl⟩
  | cons e es ih =>
    have hw := Writer.writeElement_eq_add w e
    obtain ⟨hi, hl⟩ := ih (writeElement w e)
    rw [List.foldl_cons, hi, hl, hw, Writer.add_indent, Writer.add_level]
    exact ⟨Writer.separator_indent w, Writer.separator_level w⟩

/-- Elements are written as their rows after what stands before them. -/
theorem text_append_cons (banner : Option String) (a : List Element) (e : Element) (b : List Element) :
    (CodeFile.mk banner (a ++ e :: b)).text indent level =
      writtenBefore banner a indent level ++ rowsText indent (elementRows true level (e :: b)) := by
  have hstart := Writer.writeAll_eq_add (Writer.start indent level) (bannerFragments banner)
  obtain ⟨hi, hl⟩ := foldl_writeElement_keeps a ((Writer.start indent level).writeAll (bannerFragments banner))
  rw [hstart] at hi hl
  rw [text, writtenBefore, List.foldl_append, Writer.foldl_writeElement, hstart, hi, hl]
  rfl

/-- The code of a declaration stands between what is written before it and what is written after it, and its
export flag adds one word to it, right after its first indentation. -/
theorem text_makeExported (banner : Option String) (a : List Element) {e : Element} (h : e.exported? = some false)
    (b : List Element) :
    ∃ own after, (ofElements [e]).text indent level = indent.lead level ++ own ∧
      (CodeFile.mk banner (a ++ e :: b)).text indent level =
        writtenBefore banner a indent level ++ (indent.lead level ++ own) ++ after ∧
      (CodeFile.mk banner (a ++ e.makeExported :: b)).text indent level =
        writtenBefore banner a indent level ++ (indent.lead level ++ exportWord ++ own) ++ after := by
  obtain ⟨text, rest, hplain, hmarked⟩ := exports_makeExported level h
  obtain ⟨after, hafter⟩ := elementRows_first level e b
  refine ⟨text ++ "\n" ++ rowsText indent rest, rowsText indent after, ?_, ?_, ?_⟩
  · rw [text_ofElements, elementRows, hplain, rowsText_cons, Row.text]
    simp only [String.append_assoc]
  · rw [text_append_cons, hafter e rfl, hplain, rowsText_append, rowsText_cons, Row.text]
    simp only [String.append_assoc]
  · rw [text_append_cons, hafter _ e.isLoop_makeExported, hmarked, rowsText_append, rowsText_cons, Row.text]
    simp only [String.append_assoc]

/-- Lists of elements that differ only in what does not show, the export flags below the top level and the
modifiers and results of constructors, are rendered alike: to the same text or with the same error. And in a list
that is rendered the export flag of a declaration at the top level adds one word to the code of the declaration,
right after its first indentation, and changes nothing else. -/
theorem renderAt_inert (banner : Option String) (indent : Indent) (level : Nat) :
    (∀ a b : List Element, a.map Element.essence = b.map Element.essence →
      (CodeFile.mk banner a).renderAt indent level = (CodeFile.mk banner b).renderAt indent level) ∧
    ∀ (es : List Element) (i : Nat) (e : Element) (text : String), es[i]? = some e → e.exported? = some false →
      (CodeFile.mk banner es).renderAt indent level = .ok text →
        ∃ own after, (ofElements [e]).text indent level = indent.lead level ++ own ∧
          text = writtenBefore banner (es.take i) indent level ++ (indent.lead level ++ own) ++ after ∧
          (CodeFile.mk banner (es.set i e.makeExported)).renderAt indent level =
            .ok (writtenBefore banner (es.take i) indent level ++
              (indent.lead level ++ exportWord ++ own) ++ after) := by
  refine ⟨fun a b h => ?_, fun es i e text hi he hok => ?_⟩
  · rw [← renderAt_map_essence banner a, h, renderAt_map_essence]
  · obtain ⟨hdefect, rfl⟩ := renderAt_eq_ok_iff.mp hok
    obtain ⟨hlt, rfl⟩ := List.getElem?_eq_some_iff.mp hi
    have hsplit : es = es.take i ++ es[i] :: es.drop (i + 1) := by
      rw [List.getElem_cons_drop, List.take_append_drop]
    have hset : es.set i es[i].makeExported = es.take i ++ es[i].makeExported :: es.drop (i + 1) := by
      rw [List.set_eq_take_append_cons_drop, if_pos hlt]
    obtain ⟨own, after, hown, hplain, hmarked⟩ := text_makeExported banner (es.take i) he (es.drop (i + 1))
    rw [← hsplit] at hplain
    refine ⟨own, after, hown, hplain, renderAt_eq_ok_iff.mpr ⟨firstDefect_eq_none_iff.mpr fun x hx => ?_, ?_⟩⟩
    · rcases List.mem_or_eq_of_mem_set hx with hmem | rfl
      · exact firstDefect_eq_none_iff.mp hdefect x hmem
      · rw [Element.missing?_makeExported]
        exact firstDefect_eq_none_iff.mp hdefect _ (List.getElem_mem hlt)
    · rw [hset]
      exact hmarked.symm

/-- A constructor with modifiers and an exported alias inside it, and an alias at the top level. -/
theorem renderAt_inert_alias :
    let inner (exported : Bool) : Statement := .element (.typeDecl { name := "T", value := "A", exported })
    let made : Method :=
      ⟨{ name := "constructor", visibility := some .priv, isStatic := true,
         signature := { returnType := some " " } }, [inner true]⟩
    let plain : Method := ⟨{ name := "constructor" }, [inner false]⟩
    let decl : Element := .typeDecl { name := "A", value := "B" }
    (CodeFile.mk none [.classDecl { name := "C" } [made]]).renderAt .tab 1 =
        (CodeFile.mk none [.classDecl { name := "C" } [plain]]).renderAt .tab 1 ∧
      ∃ own after, (ofElements [decl]).text .tab 1 = Indent.tab.lead 1 ++ own ∧
        "\ttype A = B;\n" = writtenBefore none [] .tab 1 ++ (Indent.tab.lead 1 ++ own) ++ after ∧
        (CodeFile.mk none [decl.makeExported]).renderAt .tab 1 =
          .ok (writtenBefore none [] .tab 1 ++ (Indent.tab.lead 1 ++ exportWord ++ own) ++ after) := by
  intro inner made plain decl
  have hclass : [Element.classDecl { name := "C" } [made]].map Element.essence =
      [Element.classDecl { name := "C" } [plain]].map Element.essence := rfl
  have hok : (CodeFile.mk none [decl]).renderAt .tab 1 = .ok "\ttype A = B;\n" := rfl
  obtain ⟨rendered, exported⟩ := renderAt_inert none .tab 1
  exact ⟨rendered _ _ hclass, exported [decl] 0 decl _ rfl rfl hok⟩

end CodeFile

end TypeScribe

import Mathlib.Data.List.Forall2
import TypeScribe.Proofs.FileRows
import TypeScribe.Proofs.Places

/-!
# Line ends in texts

A document that is saved with other line ends gives the same code. Verbatim texts, which are the ones that may have
several lines, are only ever looked at line by line: where they are spliced, where they stand by themselves, and
where they are found to be blank. So two trees that differ in verbatim texts, each with the lines of the text in its
place, cannot be told apart, neither by their code nor by their error.

* `lines_of_resaved`: a text that is saved with other line ends has the same lines.
* `Element.Varies`: elements that differ in verbatim texts only.
* `Element.Varies.fragments_eq`, `Element.Varies.missing?_eq`: they are laid out alike, and lack the same.
* `CodeFile.renderAt_resaved`: a file saved with other line ends is rendered alike.
-/

namespace TypeScribe

/-! ## Texts -/

/-- A text with a carriage return in front of every line feed. -/
def withReturns (text : String) : String :=
  String.ofList (text.toList.flatMap fun c => if c = '\n' then ['\r', '\n'] else [c])

/-- What may end a line. -/
def lineEnds : List String := ["\n", "\r\n"]

/-- A text that is not empty and has no line end at its end. -/
def LacksLineEnd (text : String) : Prop :=
  text ≠ "" ∧ text.toList.getLast? ≠ some '\n' ∧ text.toList.getLast? ≠ some '\r'

instance (text : String) : Decidable (LacksLineEnd text) :=
  inferInstanceAs (Decidable (text ≠ "" ∧ text.toList.getLast? ≠ some '\n' ∧ text.toList.getLast? ≠ some '\r'))

/-- A text as it is, and with a carriage return in front of every line feed unless it holds carriage returns. -/
def rewritings (text : String) : List String :=
  if '\r' ∈ text.toList then [text] else [text, withReturns text]

/-- What a text may become when it is saved with other line ends: all its line feeds may get a carriage return in front
of them if it holds none, and it may get a line end at its end if it is not empty and has none there. -/
def IsResaved (text saved : String) : Prop :=
  ∃ base ∈ rewritings text, saved = base ∨ LacksLineEnd text ∧ ∃ lineEnd ∈ lineEnds, saved = base ++ lineEnd

instance (text saved : String) : Decidable (IsResaved text saved) :=
  inferInstanceAs (Decidable (∃ base ∈ rewritings text,
    saved = base ∨ LacksLineEnd text ∧ ∃ lineEnd ∈ lineEnds, saved = base ++ lineEnd))

theorem lines_eq_of_splitLines {text other : String} (h : splitLines text.toList = splitLines other.toList) :
    lines text = lines other := by
  rw [lines, lines, h]

theorem splitLines_withReturns {cs : List Char} (h : '\r' ∉ cs) :
    splitLines (cs.flatMap fun c => if c = '\n' then ['\r', '\n'] else [c]) = splitLines cs := by
  induction cs with
  | nil => rfl
  | cons c rest ih =>
    rw [List.mem_cons, not_or] at h
    have hreturn : ∀ {more : List Char}, c = '\r' → ∀ tail, more ≠ '\n' :: tail := fun hc => absurd hc.symm h.1
    rw [List.flatMap_cons]
    by_cases hc : c = '\n'
    · rw [if_pos hc, hc, splitLines_newline, ← ih h.2]
      exact splitLines_return_newline _
    · rw [if_neg hc, List.singleton_append, splitLines_cons hc hreturn, splitLines_cons hc hreturn, ih h.2]

/-- A rewritten text has the same lines. -/
theorem lines_of_mem_rewritings {text base : String} (h : base ∈ rewritings text) : lines base = lines text := by
  rw [rewritings] at h
  split at h
  · rw [List.mem_singleton.mp h]
  · rename_i hreturn
    rcases List.mem_pair.mp h with rfl | rfl
    · rfl
    · apply lines_eq_of_splitLines
      rw [withReturns, String.toList_ofList, splitLines_withReturns hreturn]

theorem getLast?_withReturns (text : String) : (withReturns text).toList.getLast? = text.toList.getLast? := by
  rw [withReturns, String.toList_ofList]
  rcases List.eq_nil_or_concat text.toList with hnil | ⟨init, last, hlast⟩
  · rw [hnil, List.flatMap_nil]
  · rw [hlast, List.concat_eq_append, List.getLast?_concat, List.flatMap_append, List.flatMap_singleton]
    split
    · rename_i hn
      rw [hn]
      exact List.getLast?_append_of_ne_nil _ (List.cons_ne_nil _ _)
    · exact List.getLast?_concat

/-- A rewritten text has a line end at its end only if it had one before. -/
theorem lacksLineEnd_of_mem_rewritings {text base : String} (h : base ∈ rewritings text) (hend : LacksLineEnd text) :
    LacksLineEnd base := by
  rw [rewritings] at h
  split at h
  · rwa [List.mem_singleton.mp h]
  · rcases List.mem_pair.mp h with rfl | rfl
    · exact hend
    · have hne : withReturns text ≠ "" := by
        rw [Ne, ← String.toList_eq_nil_iff, ← List.getLast?_eq_none_iff, getLast?_withReturns,
          List.getLast?_eq_none_iff, String.toList_eq_nil_iff]
        exact hend.1
      rw [LacksLineEnd, getLast?_withReturns]
      exact ⟨hne, hend.2⟩

/-- A line end behind a character that belongs to none ends the line and opens no further one. -/
theorem splitLines_append_lineEnd {last : Char} (hnewline : last ≠ '\n') (hreturn : last ≠ '\r')
    {lineEnd : String} (hend : lineEnd ∈ lineEnds) (cs : List Char) :
    splitLines (cs ++ last :: lineEnd.toList) = splitLines (cs ++ [last]) := by
  have hopens : splitLines lineEnd.toList = [[]] := by
    rcases List.mem_cons.mp hend with rfl | hend
    · exact splitLines_newline []
    · rw [List.mem_singleton.mp hend]
      exact splitLines_return_newline []
  induction cs with
  | nil =>
    rw [List.nil_append, List.nil_append, splitLines_cons hnewline (fun hc => absurd hc hreturn), hopens,
      splitLines_cons hnewline (fun hc => absurd hc hreturn)]
    rfl
  | cons c rest ih =>
    rw [List.cons_append, List.cons_append]
    by_cases hc : c = '\n'
    · rw [hc, splitLines_newline, splitLines_newline, ih]
    · cases rest with
      | nil =>
        have hopen : ∀ more : List Char, c = '\r' → ∀ tail, [] ++ last :: more ≠ '\n' :: tail :=
          fun more _ tail h => hnewline (List.cons.inj h).1
        rw [splitLines_cons hc (hopen _), splitLines_cons hc (hopen _), ih]
      | cons d rest =>
        by_cases hpair : c = '\r' ∧ d = '\n'
        · -- A line end of two characters is one of the second character alone.
          have hsame : ∀ more : List Char, splitLines ('\r' :: '\n' :: more) = splitLines ('\n' :: more) := by
            intro more
            rw [splitLines_return_newline, splitLines_newline]
          obtain ⟨rfl, rfl⟩ := hpair
          rw [List.cons_append, List.cons_append] at ih
          rw [List.cons_append, List.cons_append, hsame, hsame, ih]
        · have hopen : ∀ more : List Char, c = '\r' → ∀ tail, d :: rest ++ more ≠ '\n' :: tail :=
            fun more hr tail h => hpair ⟨hr, (List.cons.inj h).1⟩
          rw [splitLines_cons hc (hopen _), splitLines_cons hc (hopen _), ih]

theorem lines_append_lineEnd {text lineEnd : String} (h : LacksLineEnd text) (hend : lineEnd ∈ lineEnds) :
    lines (text ++ lineEnd) = lines text := by
  obtain ⟨hne, hnewline, hreturn⟩ := h
  apply lines_eq_of_splitLines
  rcases List.eq_nil_or_concat text.toList with hnil | ⟨init, last, hlast⟩
  · exact absurd (String.toList_eq_nil_iff.mp hnil) hne
  · rw [hlast, List.concat_eq_append, List.getLast?_concat, Ne, Option.some_inj] at hnewline hreturn
    rw [String.toList_append, hlast, List.concat_eq_append, List.append_assoc, List.singleton_append]
    exact splitLines_append_lineEnd hnewline hreturn hend init

/-- A text that is saved with other line ends has the same lines. -/
theorem lines_of_resaved {text saved : String} (h : IsResaved text saved) : lines text = lines saved := by
  obtain ⟨base, hbase, rfl | ⟨hend, lineEnd, hmem, rfl⟩⟩ := h
  · exact (lines_of_mem_rewritings hbase).symm
  · rw [lines_append_lineEnd (lacksLineEnd_of_mem_rewritings hbase hend) hmem, lines_of_mem_rewritings hbase]

theorem consLine_all (p : Char → Bool) (c : Char) (lines : List (List Char)) :
    (consLine c lines).all (·.all p) = (p c && lines.all (·.all p)) := by
  cases lines with
  | nil => simp [consLine]
  | cons line lines => simp [consLine, Bool.and_assoc]

/-- What is left out between the lines is blank. -/
theorem splitLines_all_isSpace (cs : List Char) :
    (splitLines cs).all (·.all Blank.isSpace) = cs.all Blank.isSpace := by
  have hnewline : Blank.isSpace '\n' = true := by decide
  have hreturn : Blank.isSpace '\r' = true := by decide
  fun_induction splitLines cs with
  | case1 => rfl
  | case2 rest ih => simp [ih, hnewline]
  | case3 rest ih => simp [ih, hnewline, hreturn]
  | case4 c rest _ _ ih => rw [consLine_all, ih, List.all_cons]

/-- A text is blank when its lines are. -/
theorem isBlank_eq_lines (text : String) : isBlank text = (lines text).all isBlank := by
  rw [isBlank, ← splitLines_all_isSpace, lines, List.all_map]
  congr 1
  funext line
  rw [Function.comp_apply, isBlank, String.toList_ofList]

/-! ## Trees -/

section Varies

variable (R : String → String → Prop)

mutual

/-- Two values, the second with a related text in the place of every verbatim text of the first. -/
inductive Value.Varies : Value → Value → Prop
  | raw {text other : String} (h : R text other) : Value.Varies (.raw text) (.raw other)
  | object {entries others : List ObjectEntry} (h : ObjectLiteral.Varies entries others) :
    Value.Varies (.object entries) (.object others)

/-- Two object literals with the same keys, and values that vary. -/
inductive ObjectLiteral.Varies : List ObjectEntry → List ObjectEntry → Prop
  | nil : ObjectLiteral.Varies [] []
  | cons {key : String} {value other : Value} {rest others : List ObjectEntry} (h : Value.Varies value other)
    (hrest : ObjectLiteral.Varies rest others) :
    ObjectLiteral.Varies (⟨key, value⟩ :: rest) (⟨key, other⟩ :: others)

end

/-- Two properties of an interface, the second with a related type. -/
inductive Field.Varies : Field → Field → Prop
  | type {name type other : String} (h : R type other) : Field.Varies ⟨name, type⟩ ⟨name, other⟩

/-- Two properties of a class, the second with a related value if the first has one. -/
inductive ClassProperty.Varies : ClassProperty → ClassProperty → Prop
  | value {property : ClassProperty} {other : Option String} (h : Option.Rel R property.value other) :
    ClassProperty.Varies property { property with value := other }

mutual

/-- Two elements, the second with a related text in the place of every text of the first that may have several lines:
the value of a constant, of a property in an object literal, of a type alias and of a class property, the type of a
property of an interface, and a verbatim item of a body. All else is the same. -/
inductive Element.Varies : Element → Element → Prop
  | constDecl {name : String} {value other : Value} {exported : Bool} (h : Value.Varies R value other) :
    Element.Varies (.constDecl ⟨name, value, exported⟩) (.constDecl ⟨name, other, exported⟩)
  | typeDecl {name value other : String} {exported : Bool} (h : R value other) :
    Element.Varies (.typeDecl ⟨name, value, exported⟩) (.typeDecl ⟨name, other, exported⟩)
  | interfaceDecl {name : String} {properties others : Fields} {exported : Bool}
    (h : List.Forall₂ (Field.Varies R) properties others) :
    Element.Varies (.interfaceDecl ⟨name, properties, exported⟩) (.interfaceDecl ⟨name, others, exported⟩)
  | functionDecl {head : FunctionHead} {body other : List Statement} (h : Statement.Varies body other) :
    Element.Varies (.functionDecl head body) (.functionDecl head other)
  | arrowFunction {signature : Signature} {body other : List Statement} (h : Statement.Varies body other) :
    Element.Varies (.arrowFunction signature body) (.arrowFunction signature other)
  | classDecl {head : ClassHead} {properties : List ClassProperty} {methods others : List Method}
    (hproperties : List.Forall₂ (ClassProperty.Varies R) head.properties properties)
    (hmethods : Method.Varies methods others) :
    Element.Varies (.classDecl head methods) (.classDecl { head with properties } others)
  | enumDecl {decl : Enumeration} : Element.Varies (.enumDecl decl) (.enumDecl decl)
  | ifElse {condition : String} {body other : List Statement} (h : Statement.Varies body other) :
    Element.Varies (.ifElse condition body none) (.ifElse condition other none)
  | branches {condition : String} {body other otherwise others : List Statement} (h : Statement.Varies body other)
    (hotherwise : Statement.Varies otherwise others) :
    Element.Varies (.ifElse condition body (some otherwise)) (.ifElse condition other (some others))
  | forLoop {clauses : LoopClauses} {body other : List Statement} (h : Statement.Varies body other) :
    Element.Varies (.forLoop clauses body) (.forLoop clauses other)
  | forOfLoop {iteration : Iteration} {body other : List Statement} (h : Statement.Varies body other) :
    Element.Varies (.forOfLoop iteration body) (.forOfLoop iteration other)

/-- Two bodies, the second with a related text for each verbatim item, and elements that vary. -/
inductive Statement.Varies : List Statement → List Statement → Prop
  | nil : Statement.Varies [] []
  | raw {text other : String} {rest others : List Statement} (h : R text other)
    (hrest : Statement.Varies rest others) : Statement.Varies (.raw text :: rest) (.raw other :: others)
  | element {e other : Element} {rest others : List Statement} (h : Element.Varies e other)
    (hrest : Statement.Varies rest others) : Statement.Varies (.element e :: rest) (.element other :: others)

/-- Two lists of methods with the same heads, and bodies that vary. -/
inductive Method.Varies : List Method → List Method → Prop
  | nil : Method.Varies [] []
  | cons {head : MethodHead} {body other : List Statement} {rest others : List Method}
    (h : Statement.Varies body other) (hrest : Method.Varies rest others) :
    Method.Varies (⟨head, body⟩ :: rest) (⟨head, other⟩ :: others)

end

/-- Two files, the second with a related banner if the first has one, and elements that vary. -/
structure CodeFile.Varies (file other : CodeFile) : Prop where
  banner : Option.Rel R file.banner other.banner
  elements : List.Forall₂ (Element.Varies R) file.elements other.elements

end Varies

/-! ## Layout -/

theorem splice_of_lines {text other : String} (h : lines text = lines other) (head tail : String) :
    splice head text tail = splice head other tail := by
  rw [splice, splice, h]

theorem rawFragments_of_lines {text other : String} (h : lines text = lines other) :
    rawFragments text = rawFragments other := by
  rw [rawFragments, rawFragments, h]

theorem require_of_lines {text other : String} (h : lines text = lines other) (kind : Kind) (field : String) :
    require kind field text = require kind field other := by
  rw [require, require, isBlank_eq_lines, h, ← isBlank_eq_lines]

/-- Related texts have the same lines. -/
def IsLinewise (R : String → String → Prop) : Prop := ∀ ⦃text other⦄, R text other → lines text = lines other

variable {R : String → String → Prop}

mutual

theorem Value.Varies.entryFragments_eq (hR : IsLinewise R) (key comma : String) :
    ∀ {value other : Value}, Value.Varies R value other →
      value.entryFragments key comma = other.entryFragments key comma
  | _, _, .raw h => by rw [Value.entryFragments, Value.entryFragments, splice_of_lines (hR h)]
  | _, _, .object h => by
    rw [Value.entryFragments, Value.entryFragments, ObjectLiteral.Varies.fragments_eq hR h]

theorem ObjectLiteral.Varies.fragments_eq (hR : IsLinewise R) :
    ∀ {entries others : List ObjectEntry}, ObjectLiteral.Varies R entries others →
      ObjectLiteral.fragments entries = ObjectLiteral.fragments others
  | _, _, .nil => rfl
  | _, _, .cons h .nil => by
    rw [ObjectLiteral.fragments, ObjectLiteral.fragments, Value.Varies.entryFragments_eq hR _ _ h]
  | _, _, .cons h (.cons hnext hrest) => by
    rw [ObjectLiteral.fragments, ObjectLiteral.fragments, Value.Varies.entryFragments_eq hR _ _ h,
      ObjectLiteral.Varies.fragments_eq hR (.cons hnext hrest)]

end

theorem Constant.fragments_eq_of_varies (hR : IsLinewise R) (topLevel : Bool) {name : String} {value other : Value}
    {exported : Bool} (h : Value.Varies R value other) :
    Constant.fragments topLevel ⟨name, value, exported⟩ = Constant.fragments topLevel ⟨name, other, exported⟩ := by
  cases h with
  | raw h => exact splice_of_lines (hR h) _ _
  | object h =>
    rw [Constant.fragments, Constant.fragments]
    dsimp only
    rw [ObjectLiteral.Varies.fragments_eq hR h]

theorem Field.Varies.splice_eq (hR : IsLinewise R) {f other : Field} (h : Field.Varies R f other) :
    splice (f.name ++ ": ") f.type ";" = splice (other.name ++ ": ") other.type ";" := by
  obtain ⟨h⟩ := h
  exact splice_of_lines (hR h) _ _

theorem ClassProperty.Varies.fragment_eq (hR : IsLinewise R) {p other : ClassProperty}
    (h : ClassProperty.Varies R p other) : p.fragment = other.fragment := by
  obtain ⟨h⟩ := h
  obtain ⟨name, visibility, isStatic, isReadonly, type, value⟩ := p
  cases h with
  | none => rfl
  | some h => exact congrArg Fragment.sequence (splice_of_lines (hR h) _ _)

/-- What is the same of two items that are related is the same of lists of them. -/
theorem map_eq_of_forall₂ {α β : Type} {Q : α → α → Prop} {f : α → β} (hf : ∀ a b, Q a b → f a = f b)
    {as bs : List α} (h : List.Forall₂ Q as bs) : as.map f = bs.map f := by
  induction h with
  | nil => rfl
  | cons hab _ ih => rw [List.map_cons, List.map_cons, hf _ _ hab, ih]

theorem Interface.fragments_eq_of_varies (hR : IsLinewise R) (topLevel : Bool) {name : String}
    {properties others : Fields} {exported : Bool} (h : List.Forall₂ (Field.Varies R) properties others) :
    Interface.fragments topLevel ⟨name, properties, exported⟩ =
      Interface.fragments topLevel ⟨name, others, exported⟩ := by
  have hlines : properties.map (fun f => splice (f.name ++ ": ") f.type ";") =
      others.map fun f => splice (f.name ++ ": ") f.type ";" :=
    map_eq_of_forall₂ (fun _ _ hfield => hfield.splice_eq hR) h
  rw [Interface.fragments, Interface.fragments]
  dsimp only
  rw [List.flatMap_def, List.flatMap_def, hlines]

/-- The members of a class whose properties and methods are laid out alike. -/
theorem classMembers_eq_of_varies (hR : IsLinewise R) {properties more : List ClassProperty}
    (h : List.Forall₂ (ClassProperty.Varies R) properties more) {methods others : List Method}
    (hmethods : ∀ isFirst, Method.fragments isFirst methods = Method.fragments isFirst others) :
    properties.map ClassProperty.fragment ++ Method.fragments properties.isEmpty methods =
      more.map ClassProperty.fragment ++ Method.fragments more.isEmpty others := by
  have hproperties : properties.map ClassProperty.fragment = more.map ClassProperty.fragment :=
    map_eq_of_forall₂ (fun _ _ hproperty => hproperty.fragment_eq hR) h
  have hempty : properties.isEmpty = more.isEmpty := by
    cases h <;> rfl
  rw [hproperties, hempty, hmethods]

mutual

/-- Elements that vary in texts with the same lines are laid out alike. -/
theorem Element.Varies.fragments_eq (hR : IsLinewise R) (topLevel : Bool) :
    ∀ {e other : Element}, Element.Varies R e other → e.fragments topLevel = other.fragments topLevel
  | _, _, .constDecl h => Constant.fragments_eq_of_varies hR topLevel h
  | _, _, .typeDecl h => splice_of_lines (hR h) _ _
  | _, _, .interfaceDecl h => Interface.fragments_eq_of_varies hR topLevel h
  | _, _, .functionDecl h => by
    rw [Element.fragments, Element.fragments, Statement.Varies.fragments_eq hR [] h]
  | _, _, .arrowFunction h => by
    rw [Element.fragments, Element.fragments, Statement.Varies.fragments_eq hR [] h]
  | _, _, .classDecl hproperties hmethods => by
    rw [Element.fragments, Element.fragments]
    exact congrArg (fun members => [braced _ members ""])
      (classMembers_eq_of_varies hR hproperties fun isFirst => Method.Varies.fragments_eq hR isFirst hmethods)
  | _, _, .enumDecl => rfl
  | _, _, .ifElse h => by
    rw [Element.fragments, Element.fragments, Statement.Varies.fragments_eq hR [] h]
  | _, _, .branches h hotherwise => by
    rw [Element.fragments, Element.fragments, Statement.Varies.fragments_eq hR [] h,
      Statement.Varies.fragments_eq hR [] hotherwise]
  | _, _, .forLoop h => by
    rw [Element.fragments, Element.fragments, Statement.Varies.fragments_eq hR [] h]
  | _, _, .forOfLoop h => by
    rw [Element.fragments, Element.fragments, Statement.Varies.fragments_eq hR [] h]

theorem Statement.Varies.fragments_eq (hR : IsLinewise R) (gap : List Fragment) :
    ∀ {body other : List Statement}, Statement.Varies R body other →
      Statement.fragments gap body = Statement.fragments gap other
  | _, _, .nil => rfl
  | _, _, .raw h hrest => by
    rw [Statement.fragments, Statement.fragments, rawFragments_of_lines (hR h),
      Statement.Varies.fragments_eq hR [] hrest]
  | _, _, .element h hrest => by
    rw [Statement.fragments, Statement.fragments, Element.Varies.fragments_eq hR false h,
      Statement.Varies.fragments_eq hR _ hrest]

theorem Method.Varies.fragments_eq (hR : IsLinewise R) (isFirst : Bool) :
    ∀ {methods others : List Method}, Method.Varies R methods others →
      Method.fragments isFirst methods = Method.fragments isFirst others
  | _, _, .nil => rfl
  | _, _, .cons h hrest => by
    rw [Method.fragments, Method.fragments, Statement.Varies.fragments_eq hR [] h,
      Method.Varies.fragments_eq hR false hrest]

end

/-! ## Defects -/

mutual

theorem Value.Varies.missing?_eq (hR : IsLinewise R) (kind : Kind) :
    ∀ {value other : Value}, Value.Varies R value other → value.missing? kind = other.missing? kind
  | _, _, .raw h => by rw [Value.missing?, Value.missing?, require_of_lines (hR h)]
  | _, _, .object h => by rw [Value.missing?, Value.missing?, ObjectLiteral.Varies.missing?_eq hR kind h]

theorem ObjectLiteral.Varies.missing?_eq (hR : IsLinewise R) (kind : Kind) :
    ∀ {entries others : List ObjectEntry}, ObjectLiteral.Varies R entries others →
      ObjectLiteral.missing? kind entries = ObjectLiteral.missing? kind others
  | _, _, .nil => rfl
  | _, _, .cons h hrest => by
    rw [ObjectLiteral.missing?, ObjectLiteral.missing?, Value.Varies.missing?_eq hR kind h,
      ObjectLiteral.Varies.missing?_eq hR kind hrest]

end

theorem Constant.missing?_eq_of_varies (hR : IsLinewise R) {name : String} {value other : Value} {exported : Bool}
    (h : Value.Varies R value other) :
    Constant.missing? ⟨name, value, exported⟩ = Constant.missing? ⟨name, other, exported⟩ := by
  rw [Constant.missing?, Constant.missing?]
  cases h with
  | raw h => exact congrArg (Option.or _) (require_of_lines (hR h) _ _)
  | object h =>
    dsimp only
    rw [ObjectLiteral.Varies.missing?_eq hR _ h]

theorem Field.Varies.missing?_eq (hR : IsLinewise R) {f other : Field} (h : Field.Varies R f other) (kind : Kind)
    (list : String) (index : Nat) : f.missing? kind list index = other.missing? kind list index := by
  obtain ⟨h⟩ := h
  rw [Field.missing?, Field.missing?, require_of_lines (hR h)]

theorem ClassProperty.Varies.missing?_eq (hR : IsLinewise R) {p other : ClassProperty}
    (h : ClassProperty.Varies R p other) : p.missing? = other.missing? := by
  obtain ⟨h⟩ := h
  obtain ⟨name, visibility, isStatic, isReadonly, type, value⟩ := p
  cases h with
  | none => rfl
  | some h =>
    rw [ClassProperty.missing?, ClassProperty.missing?, requireSome, requireSome]
    exact congrArg (fun m => (require .property "name" name).or ((requireSome .property "type" type).or m))
      (require_of_lines (hR h) _ _)

/-- Parts that lack the same, one by one, have the same first defect. -/
theorem firstMissing_eq_of_forall₂ {α : Type} {Q : α → α → Prop} (check : Nat → α → Option MissingField)
    (hcheck : ∀ index a b, Q a b → check index a = check index b) {as bs : List α} (h : List.Forall₂ Q as bs)
    (index : Nat) : firstMissing check index as = firstMissing check index bs := by
  induction h generalizing index with
  | nil => rfl
  | cons hab _ ih => rw [firstMissing, firstMissing, hcheck index _ _ hab, ih]

theorem Interface.missing?_eq_of_varies (hR : IsLinewise R) {name : String} {properties others : Fields}
    {exported : Bool} (h : List.Forall₂ (Field.Varies R) properties others) :
    Interface.missing? ⟨name, properties, exported⟩ = Interface.missing? ⟨name, others, exported⟩ := by
  have hproperties := firstMissing_eq_of_forall₂ (Field.missing? .interfaceDecl "properties")
    (fun index _ _ hfield => hfield.missing?_eq hR _ _ index) h 0
  exact congrArg (Option.or _) hproperties

theorem ClassHead.missing?_eq_of_varies (hR : IsLinewise R) {head : ClassHead} {properties : List ClassProperty}
    (h : List.Forall₂ (ClassProperty.Varies R) head.properties properties) :
    head.missing? = ClassHead.missing? { head with properties } := by
  have hproperties := firstMissing_eq_of_forall₂
    (fun i (p : ClassProperty) => p.missing?.map (·.under (.item "properties" i)))
    (fun index a b hab => by rw [hab.missing?_eq hR]) h 0
  rw [ClassHead.missing?, ClassHead.missing?, hproperties]

mutual

/-- Elements that vary in texts with the same lines lack the same. -/
theorem Element.Varies.missing?_eq (hR : IsLinewise R) :
    ∀ {e other : Element}, Element.Varies R e other → e.missing? = other.missing?
  | _, _, .constDecl h => Constant.missing?_eq_of_varies hR h
  | _, _, .typeDecl h => congrArg (Option.or _) (require_of_lines (hR h) _ _)
  | _, _, .interfaceDecl h => Interface.missing?_eq_of_varies hR h
  | _, _, .functionDecl h => by
    rw [Element.missing?, Element.missing?, Statement.Varies.missing?_eq hR "body" 0 h]
  | _, _, .arrowFunction h => by
    rw [Element.missing?, Element.missing?, Statement.Varies.missing?_eq hR "body" 0 h]
  | _, _, .classDecl hproperties hmethods => by
    rw [Element.missing?, Element.missing?, ClassHead.missing?_eq_of_varies hR hproperties,
      Method.Varies.missing?_eq hR 0 hmethods]
  | _, _, .enumDecl => rfl
  | _, _, .ifElse h => by
    rw [Element.missing?, Element.missing?, Statement.Varies.missing?_eq hR "body" 0 h]
  | _, _, .branches h hotherwise => by
    rw [Element.missing?, Element.missing?, Statement.Varies.missing?_eq hR "body" 0 h,
      Statement.Varies.missing?_eq hR "else" 0 hotherwise]
  | _, _, .forLoop h => by
    rw [Element.missing?, Element.missing?, Statement.Varies.missing?_eq hR "body" 0 h]
  | _, _, .forOfLoop h => by
    rw [Element.missing?, Element.missing?, Statement.Varies.missing?_eq hR "body" 0 h]

theorem Statement.Varies.missing?_eq (hR : IsLinewise R) (field : String) (index : Nat) :
    ∀ {body other : List Statement}, Statement.Varies R body other →
      Statement.missing? field index body = Statement.missing? field index other
  | _, _, .nil => rfl
  | _, _, .raw _ hrest => by
    rw [Statement.missing?, Statement.missing?, Statement.Varies.missing?_eq hR field _ hrest]
  | _, _, .element h hrest => by
    rw [Statement.missing?, Statement.missing?, Element.Varies.missing?_eq hR h,
      Statement.Varies.missing?_eq hR field _ hrest]

theorem Method.Varies.missing?_eq (hR : IsLinewise R) (index : Nat) :
    ∀ {methods others : List Method}, Method.Varies R methods others →
      Method.missing? index methods = Method.missing? index others
  | _, _, .nil => rfl
  | _, _, .cons h hrest => by
    rw [Method.missing?, Method.missing?, Statement.Varies.missing?_eq hR "body" 0 h,
      Method.Varies.missing?_eq hR _ hrest]

end

/-! ## Files -/

theorem CodeFile.Varies.bannerFragments_eq (hR : IsLinewise R) {file other : CodeFile} (h : file.Varies R other) :
    bannerFragments file.banner = bannerFragments other.banner := by
  obtain ⟨banner, elements⟩ := file
  obtain ⟨otherBanner, others⟩ := other
  cases h.banner with
  | none => rfl
  | some hbanner => rw [bannerFragments, bannerFragments, hR hbanner]

/-- A file and the same file with its texts saved with other line ends, each text by itself in any of the ways, are
rendered alike with every indentation and at every level: to the same text or with the same error. The texts are all
that may have several lines, at any depth: values of constants, of properties in object literals, of type aliases and
of class properties, types of interface properties, verbatim items of bodies, and the banner. -/
theorem CodeFile.renderAt_resaved {file saved : CodeFile} (h : file.Varies IsResaved saved) (indent : Indent)
    (level : Nat) : file.renderAt indent level = saved.renderAt indent level := by
  have hR : IsLinewise IsResaved := fun _ _ hsaved => lines_of_resaved hsaved
  refine renderAt_congr (h.bannerFragments_eq hR) ?_ ?_ indent level
  · exact map_eq_of_forall₂ (fun _ _ he => Element.Varies.fragments_eq hR true he) h.elements
  · exact map_eq_of_forall₂ (fun _ _ he => Element.Varies.missing?_eq hR he) h.elements

/-- A banner, a class with a value and a method of two lines each, and an object whose last value lacks its text. -/
theorem CodeFile.renderAt_resaved_class :
    let elements (value item last : String) : List Element :=
      [.classDecl { name := "C", properties := [{ name := "p", value := some value }] }
          [⟨{ name := "f" }, [.raw item]⟩],
        .constDecl { name := "o", value := .object [⟨"k", .raw last⟩] }]
    let file : CodeFile := ⟨some "made\nhere", elements "[\n1]" "a;\n\nb;" "\n"⟩
    let saved : CodeFile := ⟨some "made\r\nhere\r\n", elements "[\r\n1]\n" "a;\r\n\r\nb;" "\r\n"⟩
    file.Varies IsResaved saved ∧ saved.renderAt .tab 1 = .error ⟨.constDecl, "value", "elements[1].value.k"⟩ ∧
      file.renderAt .tab 1 = saved.renderAt .tab 1 := by
  intro elements file saved
  have hproperty : ClassProperty.Varies IsResaved { name := "p", value := some "[\n1]" }
      { name := "p", value := some "[\r\n1]\n" } := .value (.some (by decide +kernel))
  have hmethods : Method.Varies IsResaved [⟨{ name := "f" }, [.raw "a;\n\nb;"]⟩]
      [⟨{ name := "f" }, [.raw "a;\r\n\r\nb;"]⟩] := .cons (.raw (by decide +kernel) .nil) .nil
  have hvalue : Value.Varies IsResaved (.object [⟨"k", .raw "\n"⟩]) (.object [⟨"k", .raw "\r\n"⟩]) :=
    .object (.cons (.raw (by decide +kernel)) .nil)
  have hfile : file.Varies IsResaved saved :=
    ⟨.some (by decide +kernel), .cons (.classDecl (.cons hproperty .nil) hmethods) (.cons (.constDecl hvalue) .nil)⟩
  exact ⟨hfile, rfl, renderAt_resaved hfile .tab 1⟩

end TypeScribe

import Mathlib.Data.List.DropRight
import TypeScribe.Proofs.Places

/-!
# Required texts in order

The texts that an element requires, each with the kind of thing it belongs to, its field, and the place of the
thing under the place of the element: the texts of a thing first, then those of its parts in order. A check
fails exactly when one of them is blank, and tells the first one.

* `Element.requirements`: the required texts of an element, in order.
* `Element.reports`: a check of an element finds the first blank one of them.
* `Element.validate_exact`: what a check of an element comes to.
-/

namespace TypeScribe

/-- A required text: of what kind of thing, in which field, and the place of the thing. -/
structure Requirement where
  kind : Kind
  field : String
  place : String
  text : String
deriving DecidableEq, Repr

/-- A text without the spaces at its ends. -/
def trimmed (text : String) : String :=
  String.ofList ((text.toList.dropWhile Blank.isSpace).rdropWhile Blank.isSpace)

namespace Requirement

/-- A required text is there when something is left of it without the spaces at its ends. -/
def IsMet (r : Requirement) : Prop := trimmed r.text ≠ ""

/-- The error that tells a required text. -/
def error (r : Requirement) : RenderError := ⟨r.kind, r.field, r.place⟩

end Requirement

/-- What an optional text requires, if it is there. -/
def optionalRequirement (kind : Kind) (field place : String) (text : Option String) : List Requirement :=
  text.toList.map fun t => ⟨kind, field, place, t⟩

/-- What the parts in a list require, each with its number. -/
def numberedRequirements {α : Type} (needs : Nat → α → List Requirement) (parts : List α) :
    List Requirement :=
  parts.zipIdx.flatMap fun (part, index) => needs index part

/-- A field: its name at its number, its type at its name. -/
def Field.requirements (kind : Kind) (list place : String) (index : Nat) (f : Field) : List Requirement :=
  [⟨kind, list, itemPlace (place ++ "." ++ list) index, f.name⟩,
    ⟨kind, list, place ++ "." ++ list ++ "." ++ f.name, f.type⟩]

/-- A list of fields. -/
def Fields.requirements (kind : Kind) (list place : String) (fields : Fields) : List Requirement :=
  numberedRequirements (Field.requirements kind list place) fields

mutual

/-- A value: its expression, or those in it. -/
def Value.requirements (kind : Kind) (place : String) : Value → List Requirement
  | .raw text => [⟨kind, "value", place, text⟩]
  | .object entries => ObjectLiteral.requirements kind place entries

/-- An object literal: the value of each entry at its key. -/
def ObjectLiteral.requirements (kind : Kind) (place : String) : List ObjectEntry → List Requirement
  | [] => []
  | ⟨key, value⟩ :: rest =>
    value.requirements kind (place ++ "." ++ key) ++ ObjectLiteral.requirements kind place rest

end

/-- A constant. -/
def Constant.requirements (place : String) (c : Constant) : List Requirement :=
  ⟨.constDecl, "name", place, c.name⟩ ::
    match c.value with
    | .raw text => [⟨.constDecl, "value", place, text⟩]
    | .object entries => ObjectLiteral.requirements .constDecl (place ++ ".value") entries

/-- A type alias. -/
def TypeAlias.requirements (place : String) (t : TypeAlias) : List Requirement :=
  [⟨.typeDecl, "name", place, t.name⟩, ⟨.typeDecl, "value", place, t.value⟩]

/-- An interface. -/
def Interface.requirements (place : String) (i : Interface) : List Requirement :=
  ⟨.interfaceDecl, "name", place, i.name⟩ ::
    Fields.requirements .interfaceDecl "properties" place i.properties

/-- A member of an enum. -/
def EnumMember.requirements (place : String) : EnumMember → List Requirement
  | .bare name => [⟨.enumMember, "name", place, name⟩]
  | .valued name value => [⟨.enumMember, "name", place, name⟩, ⟨.enumMember, "value", place, value⟩]

/-- An enum. -/
def Enumeration.requirements (place : String) (e : Enumeration) : List Requirement :=
  ⟨.enumDecl, "name", place, e.name⟩ ::
    numberedRequirements (fun i m => m.requirements (itemPlace (place ++ ".members") i)) e.members

/-- A property of a class. -/
def ClassProperty.requirements (place : String) (p : ClassProperty) : List Requirement :=
  ⟨.property, "name", place, p.name⟩ ::
    (optionalRequirement .property "type" place p.type ++ optionalRequirement .property "value" place p.value)

/-- A signature. -/
def Signature.requirements (kind : Kind) (place : String) (s : Signature) : List Requirement :=
  Fields.requirements kind "args" place s.args ++ optionalRequirement kind "returnType" place s.returnType

/-- A function apart from its body. -/
def FunctionHead.requirements (place : String) (f : FunctionHead) : List Requirement :=
  ⟨.functionDecl, "name", place, f.name⟩ :: f.signature.requirements .functionDecl place

/-- A method apart from its body; a constructor needs no result. -/
def MethodHead.requirements (place : String) (m : MethodHead) : List Requirement :=
  ⟨.method, "name", place, m.name⟩ ::
    if m.name = "constructor" then Fields.requirements .method "args" place m.signature.args
    else m.signature.requirements .method place

/-- A class apart from its methods. -/
def ClassHead.requirements (place : String) (c : ClassHead) : List Requirement :=
  ⟨.classDecl, "name", place, c.name⟩ ::
    (optionalRequirement .classDecl "extends" place c.parent ++
      numberedRequirements
        (fun i name => [⟨.classDecl, "implements", itemPlace (place ++ ".implements") i, name⟩])
        c.implements ++
      numberedRequirements (fun i p => p.requirements (itemPlace (place ++ ".properties") i)) c.properties)

mutual

/-- The required texts of an element that stands at a place, in order. -/
def Element.requirements (place : String) : Element → List Requirement
  | .constDecl decl => decl.requirements place
  | .typeDecl decl => decl.requirements place
  | .interfaceDecl decl => decl.requirements place
  | .functionDecl head body => head.requirements place ++ Statement.requirements (place ++ ".body") 0 body
  | .arrowFunction signature body =>
    signature.requirements .arrowFunction place ++ Statement.requirements (place ++ ".body") 0 body
  | .classDecl head methods => head.requirements place ++ Method.requirements (place ++ ".methods") 0 methods
  | .enumDecl decl => decl.requirements place
  | .ifElse condition body none =>
    ⟨.ifElse, "condition", place, condition⟩ :: Statement.requirements (place ++ ".body") 0 body
  | .ifElse condition body (some otherwise) =>
    ⟨.ifElse, "condition", place, condition⟩ ::
      (Statement.requirements (place ++ ".body") 0 body ++
        Statement.requirements (place ++ ".else") 0 otherwise)
  | .forLoop _ body => Statement.requirements (place ++ ".body") 0 body
  | .forOfLoop iteration body =>
    ⟨.forOfLoop, "variable", place, iteration.binder⟩ ::
      ⟨.forOfLoop, "iterable", place, iteration.iterable⟩ :: Statement.requirements (place ++ ".body") 0 body

/-- A body whose items are counted from an index: its elements, each at its number. -/
def Statement.requirements (list : String) (index : Nat) : List Statement → List Requirement
  | [] => []
  | .raw _ :: rest => Statement.requirements list (index + 1) rest
  | .element e :: rest =>
    e.requirements (itemPlace list index) ++ Statement.requirements list (index + 1) rest

/-- Methods that are counted from an index, each at its number. -/
def Method.requirements (list : String) (index : Nat) : List Method → List Requirement
  | [] => []
  | ⟨head, body⟩ :: rest =>
    head.requirements (itemPlace list index) ++
      Statement.requirements (itemPlace list index ++ ".body") 0 body ++
        Method.requirements list (index + 1) rest

end

/-! ## Blank texts -/

theorem trimmed_eq_empty_iff {text : String} : trimmed text = "" ↔ isBlank text = true := by
  have hspaces : ∀ cs : List Char, (∀ c ∈ cs.dropWhile Blank.isSpace, Blank.isSpace c = true) ↔
      ∀ c ∈ cs, Blank.isSpace c = true := by
    refine fun cs => ⟨fun h => ?_, fun h c hc => h c ((List.dropWhile_suffix _).subset hc)⟩
    rw [← List.dropWhile_eq_nil_iff, ← List.dropWhile_idempotent, List.dropWhile_eq_nil_iff]
    exact h
  rw [trimmed, ← String.toList_inj, String.toList_ofList, String.toList_empty,
    List.rdropWhile_eq_nil_iff, hspaces, isBlank, List.all_eq_true]

theorem Requirement.isMet_iff {r : Requirement} : r.IsMet ↔ isBlank r.text = false := by
  rw [IsMet, ne_eq, trimmed_eq_empty_iff, Bool.not_eq_true]

/-- The first required text that is blank. -/
def firstBlank (rs : List Requirement) : Option Requirement := rs.find? fun r => isBlank r.text

theorem firstBlank_eq_none_iff {rs : List Requirement} : firstBlank rs = none ↔ ∀ r ∈ rs, r.IsMet := by
  rw [firstBlank, List.find?_eq_none]
  refine forall_congr' fun r => imp_congr_right fun _ => ?_
  rw [Requirement.isMet_iff, Bool.not_eq_true]

theorem firstBlank_eq_some_iff {rs : List Requirement} {r : Requirement} :
    firstBlank rs = some r ↔
      ∃ before after, rs = before ++ r :: after ∧ (∀ q ∈ before, q.IsMet) ∧ ¬ r.IsMet := by
  have hblank : ¬ r.IsMet ↔ isBlank r.text = true := by rw [Requirement.isMet_iff, Bool.not_eq_false]
  have hmet : ∀ before : List Requirement,
      (∀ q ∈ before, q.IsMet) ↔ ∀ q ∈ before, (!isBlank q.text) = true := by
    refine fun before => forall_congr' fun q => imp_congr_right fun _ => ?_
    rw [Requirement.isMet_iff, Bool.not_eq_true']
  rw [firstBlank, List.find?_eq_some_iff_append, hblank]
  refine ⟨fun ⟨hr, before, after, hs, hb⟩ => ⟨before, after, hs, (hmet before).mpr hb, hr⟩, ?_⟩
  exact fun ⟨before, after, hs, hb, hr⟩ => ⟨hr, before, after, hs, (hmet before).mp hb⟩

/-! ## Checks that tell the first blank text -/

theorem MissingField.at_under (m : MissingField) (step : Step) (place : String) :
    (m.under step).at place = m.at (place ++ step.text) := by
  rw [MissingField.at, path_under, MissingField.at]; rfl

/-- What a check finds in a thing at a place is the first blank one of some required texts. -/
def Reports (place : String) (found : Option MissingField) (rs : List Requirement) : Prop :=
  found.map (·.at place) = (firstBlank rs).map Requirement.error

namespace Reports

variable {place : String} {found found' : Option MissingField} {rs rs' : List Requirement}

theorem nil : Reports place none [] := rfl

/-- One check after the other. -/
theorem or (h : Reports place found rs) (h' : Reports place found' rs') :
    Reports place (found.or found') (rs ++ rs') := by
  unfold Reports firstBlank at h h' ⊢
  rw [List.find?_append]
  cases hf : found with
  | none =>
    rw [hf, Option.map_none, eq_comm, Option.map_eq_none_iff] at h
    rw [h, Option.none_or, Option.none_or, h']
  | some m =>
    rw [hf, Option.map_some, eq_comm, Option.map_eq_some_iff] at h
    obtain ⟨r, hr, he⟩ := h
    rw [hr, Option.some_or, Option.some_or, Option.map_some, Option.map_some, he]

/-- One step further up. -/
theorem under {step : Step} (h : Reports (place ++ step.text) found rs) :
    Reports place (found.map (·.under step)) rs := by
  unfold Reports at h ⊢
  rw [← h, Option.map_map]
  cases found with
  | none => rfl
  | some m => exact congrArg some (m.at_under step place)

theorem require (kind : Kind) (field text : String) :
    Reports place (require kind field text) [⟨kind, field, place, text⟩] := by
  unfold Reports firstBlank TypeScribe.require
  cases hb : isBlank text with
  | false =>
    rw [if_neg Bool.false_ne_true, List.find?_cons_of_neg (by rw [hb]; exact Bool.false_ne_true)]
    rfl
  | true =>
    rw [if_pos rfl, List.find?_cons_of_pos (by exact hb)]
    exact congrArg (fun p => some (RenderError.mk kind field p)) String.append_empty

/-- A required text at one step down. -/
theorem require_under (kind : Kind) (field text : String) (step : Step) {there : String}
    (h : place ++ step.text = there) :
    Reports place ((TypeScribe.require kind field text).map (·.under step)) [⟨kind, field, there, text⟩] :=
  under (h ▸ require kind field text)

/-- A required text, and then what other checks find. -/
theorem require_or (kind : Kind) (field text : String) (h : Reports place found rs) :
    Reports place ((TypeScribe.require kind field text).or found) (⟨kind, field, place, text⟩ :: rs) :=
  (require kind field text).or h

theorem requireSome (kind : Kind) (field : String) (text : Option String) :
    Reports place (requireSome kind field text) (optionalRequirement kind field place text) := by
  cases text with
  | none => exact nil
  | some text => exact require kind field text

/-- The parts of a list, one after the other. -/
theorem firstMissing {α : Type} {check : Nat → α → Option MissingField} {needs : Nat → α → List Requirement}
    (h : ∀ index part, Reports place (check index part) (needs index part)) (parts : List α) :
    Reports place (firstMissing check 0 parts) (numberedRequirements needs parts) := by
  have counted : ∀ index, Reports place (TypeScribe.firstMissing check index parts)
      ((parts.zipIdx index).flatMap fun (part, i) => needs i part) := by
    induction parts with
    | nil => exact fun _ => nil
    | cons part rest ih => exact fun index => (h index part).or (ih (index + 1))
  exact counted 0

end Reports

theorem place_item (place list : String) (index : Nat) :
    place ++ (Step.item list index).text = itemPlace (place ++ "." ++ list) index := by
  simp only [Step.text, itemPlace, String.append_assoc]

theorem place_key (place key : String) : place ++ (Step.key key).text = place ++ "." ++ key := by
  rw [Step.text, String.append_assoc]

/-! ## Parts of elements -/

section

variable (place : String)

theorem Fields.reports (kind : Kind) (list : String) (fields : Fields) :
    Reports place (Fields.missing? kind list fields) (Fields.requirements kind list place fields) := by
  refine Reports.firstMissing (fun index f => ?_) fields
  have hname : Reports place ((require kind list f.name).map (·.under (.item list index)))
      [⟨kind, list, itemPlace (place ++ "." ++ list) index, f.name⟩] :=
    .require_under kind list f.name _ (place_item place list index)
  have htype : Reports place
      ((require kind list f.type).map fun m => (m.under (.key f.name)).under (.key list))
      [⟨kind, list, place ++ "." ++ list ++ "." ++ f.name, f.type⟩] := by
    have hinner := Reports.require_under kind list f.type (.key f.name)
      (place_key (place ++ "." ++ list) f.name)
    rw [← place_key place list] at hinner
    have houter := hinner.under
    rwa [Option.map_map, place_key] at houter
  exact hname.or htype

mutual

theorem Value.reports (kind : Kind) : ∀ (v : Value) (place : String),
    Reports place (v.missing? kind) (v.requirements kind place)
  | .raw text, _ => .require kind "value" text
  | .object entries, place => ObjectLiteral.reports kind entries place

theorem ObjectLiteral.reports (kind : Kind) : ∀ (entries : List ObjectEntry) (place : String),
    Reports place (ObjectLiteral.missing? kind entries) (ObjectLiteral.requirements kind place entries)
  | [], _ => .nil
  | ⟨key, value⟩ :: rest, place => by
    have hvalue := value.reports kind (place ++ "." ++ key)
    rw [← place_key] at hvalue
    rw [ObjectLiteral.missing?, ObjectLiteral.requirements, ← place_key]
    exact hvalue.under.or (ObjectLiteral.reports kind rest place)

end

theorem Constant.reports (c : Constant) : Reports place c.missing? (c.requirements place) := by
  refine .require_or _ _ _ ?_
  cases c.value with
  | raw text => exact .require _ _ _
  | object entries =>
    have hentries := ObjectLiteral.reports .constDecl entries (place ++ (Step.key "value").text)
    exact hentries.under

theorem EnumMember.reports (m : EnumMember) : Reports place m.missing? (m.requirements place) := by
  cases m with
  | bare name => exact .require _ _ _
  | valued name value => exact .require_or _ _ _ (.require _ _ _)

theorem ClassProperty.reports (p : ClassProperty) : Reports place p.missing? (p.requirements place) :=
  .require_or _ _ _ ((Reports.requireSome _ _ _).or (.requireSome _ _ _))

theorem Signature.reports (kind : Kind) (s : Signature) :
    Reports place (s.missing? kind) (s.requirements kind place) :=
  (Fields.reports place kind "args" s.args).or (.requireSome _ _ _)

theorem FunctionHead.reports (f : FunctionHead) : Reports place f.missing? (f.requirements place) :=
  .require_or _ _ _ (f.signature.reports place .functionDecl)

theorem MethodHead.reports (m : MethodHead) : Reports place m.missing? (m.requirements place) := by
  refine .require_or _ _ _ ?_
  by_cases hm : m.name = "constructor"
  · have hc : m.isConstructor = true := beq_iff_eq.mpr hm
    rw [if_pos hm, if_pos hc]
    exact Fields.reports place .method "args" m.signature.args
  · have hc : m.isConstructor = false := beq_eq_false_iff_ne.mpr hm
    rw [if_neg hm, hc, if_neg Bool.false_ne_true]
    exact m.signature.reports place .method

/-- A check of the parts in a list that looks at each part at its own place. -/
theorem Reports.firstMissing_items {α : Type} {check : α → Option MissingField}
    {needs : String → α → List Requirement}
    (list : String) (h : ∀ place part, Reports place (check part) (needs place part)) (parts : List α) :
    Reports place (TypeScribe.firstMissing (fun i part => (check part).map (·.under (.item list i))) 0 parts)
      (numberedRequirements (fun i => needs (itemPlace (place ++ "." ++ list) i)) parts) := by
  refine Reports.firstMissing (fun index part => ?_) parts
  have hpart := h (itemPlace (place ++ "." ++ list) index) part
  rw [← place_item] at hpart ⊢
  exact hpart.under

theorem Enumeration.reports (e : Enumeration) : Reports place e.missing? (e.requirements place) := by
  have hmembers := Reports.firstMissing_items place "members" EnumMember.reports e.members
  rw [String.append_assoc] at hmembers
  exact .require_or _ _ _ hmembers

theorem ClassHead.reports (c : ClassHead) : Reports place c.missing? (c.requirements place) := by
  have hname : ∀ place name, Reports place (require .classDecl "implements" name)
      [⟨.classDecl, "implements", place, name⟩] := fun place name => .require _ _ _
  have himplements := Reports.firstMissing_items place "implements" hname c.implements
  have hproperties := Reports.firstMissing_items place "properties" ClassProperty.reports c.properties
  rw [String.append_assoc] at himplements hproperties
  rw [ClassHead.requirements, List.append_assoc]
  exact .require_or _ _ _ ((Reports.requireSome _ _ _).or (himplements.or hproperties))

end

/-! ## Elements -/

mutual

/-- A check of an element finds the first blank one of its required texts. -/
theorem Element.reports : ∀ (e : Element) (place : String), Reports place e.missing? (e.requirements place)
  | .constDecl decl, place => decl.reports place
  | .typeDecl decl, place => .require_or _ _ _ (.require _ _ _)
  | .interfaceDecl decl, place =>
    .require_or _ _ _ (Fields.reports place .interfaceDecl "properties" decl.properties)
  | .functionDecl head body, place => by
    rw [Element.missing?, Element.requirements]
    exact (head.reports place).or (Statement.reports "body" body 0 place)
  | .arrowFunction signature body, place => by
    rw [Element.missing?, Element.requirements]
    exact (signature.reports place .arrowFunction).or (Statement.reports "body" body 0 place)
  | .classDecl head methods, place => by
    rw [Element.missing?, Element.requirements]
    exact (head.reports place).or (Method.reports methods 0 place)
  | .enumDecl decl, place => decl.reports place
  | .ifElse condition body none, place => by
    rw [Element.missing?, Element.requirements]
    exact .require_or _ _ _ (Statement.reports "body" body 0 place)
  | .ifElse condition body (some otherwise), place => by
    rw [Element.missing?, Element.requirements]
    exact .require_or _ _ _ ((Statement.reports "body" body 0 place).or
      (Statement.reports "else" otherwise 0 place))
  | .forLoop clauses body, place => by
    rw [Element.missing?, Element.requirements]
    exact Statement.reports "body" body 0 place
  | .forOfLoop iteration body, place => by
    rw [Element.missing?, Element.requirements]
    exact .require_or _ _ _ (.require_or _ _ _ (Statement.reports "body" body 0 place))

/-- The same for the items of a body. -/
theorem Statement.reports (field : String) : ∀ (body : List Statement) (index : Nat) (place : String),
    Reports place (Statement.missing? field index body)
      (Statement.requirements (place ++ ("." ++ field)) index body)
  | [], _, _ => by rw [Statement.missing?, Statement.requirements]; exact .nil
  | .raw text :: rest, index, place => by
    rw [Statement.missing?, Statement.requirements]
    exact Statement.reports field rest (index + 1) place
  | .element e :: rest, index, place => by
    have hitem := e.reports (place ++ (Step.item field index).text)
    rw [Statement.missing?, Statement.requirements, ← String.append_assoc, ← place_item, String.append_assoc]
    exact hitem.under.or (Statement.reports field rest (index + 1) place)

/-- The same for methods. -/
theorem Method.reports : ∀ (methods : List Method) (index : Nat) (place : String),
    Reports place (Method.missing? index methods) (Method.requirements (place ++ ".methods") index methods)
  | [], _, _ => by rw [Method.missing?, Method.requirements]; exact .nil
  | ⟨head, body⟩ :: rest, index, place => by
    have hhead := head.reports (place ++ (Step.item "methods" index).text)
    have hbody := Statement.reports "body" body 0 (place ++ (Step.item "methods" index).text)
    have hplace : place ++ (Step.item "methods" index).text = itemPlace (place ++ ".methods") index := by
      rw [place_item, String.append_assoc]; rfl
    rw [Method.missing?, Method.requirements, ← hplace]
    exact (hhead.or hbody).under.or (Method.reports rest (index + 1) place)

end

/-- A check of an element tells the first blank one of its required texts. -/
theorem Element.validate_eq (e : Element) (place : String) :
    e.validate place = match firstBlank (e.requirements place) with
      | none => .ok ()
      | some r => .error r.error := by
  have hfound := e.reports place
  unfold Reports at hfound
  rw [validate]
  cases hm : e.missing? with
  | none =>
    rw [hm, Option.map_none, eq_comm, Option.map_eq_none_iff] at hfound
    rw [hfound]
  | some m =>
    rw [hm, Option.map_some, eq_comm, Option.map_eq_some_iff] at hfound
    obtain ⟨r, hfirst, herr⟩ := hfound
    rw [hfirst]
    exact congrArg Except.error herr.symm

/-- A check of an element comes to nothing exactly when all required texts of the element are there, and to an
error exactly when it is that of the first one that is not. -/
theorem Element.validate_exact (e : Element) (place : String) :
    (e.validate place = .ok () ↔ ∀ r ∈ e.requirements place, r.IsMet) ∧
    ∀ err, e.validate place = .error err ↔
      ∃ before r after, e.requirements place = before ++ r :: after ∧ (∀ q ∈ before, q.IsMet) ∧ ¬ r.IsMet ∧
        err = r.error := by
  rw [e.validate_eq, ← firstBlank_eq_none_iff]
  cases hf : firstBlank (e.requirements place) with
  | none =>
    refine ⟨⟨fun _ => rfl, fun _ => rfl⟩, fun err => ⟨fun h => (nomatch h), ?_⟩⟩
    rintro ⟨before, r, after, hs, hb, hr, -⟩
    exact absurd (hf.symm.trans (firstBlank_eq_some_iff.mpr ⟨before, after, hs, hb, hr⟩))
      (fun h => (nomatch h))
  | some r =>
    refine ⟨⟨fun h => (nomatch h), fun h => (nomatch h)⟩, fun err => ⟨fun h => ?_, ?_⟩⟩
    · obtain ⟨before, after, hs, hb, hr⟩ := firstBlank_eq_some_iff.mp hf
      exact ⟨before, r, after, hs, hb, hr, (Except.error.inj h).symm⟩
    · rintro ⟨before, first, after, hs, hb, hr, rfl⟩
      have hfirst := firstBlank_eq_some_iff.mpr ⟨before, after, hs, hb, hr⟩
      obtain rfl := Option.some.inj (hf.symm.trans hfirst)
      rfl

example :
    let client : Element := .classDecl { name := "Client" }
      [⟨{ name := "run", signature := { args := [⟨"id", "string"⟩] } },
        [.raw "", .element (.ifElse "id" [] (some [.element (.forOfLoop ⟨"x", "\u00a0"⟩ [])]))]⟩]
    (client.requirements "elements[0]").map Requirement.text =
        ["Client", "run", "id", "string", "id", "x", "\u00a0"] ∧
      client.validate "elements[0]" =
        .error ⟨.forOfLoop, "iterable", "elements[0].methods[0].body[1].else[0]"⟩ :=
  ⟨rfl, rfl⟩

end TypeScribe

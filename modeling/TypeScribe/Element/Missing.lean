import TypeScribe.Text.Blank
import TypeScribe.Element.Basic

/-!
# Required texts

Names, types, values and conditions must not be blank. The first blank one in the order of the tree is told
by its kind, its field and the way to it.

* `MissingField.path_under`: one more step in front lengthens the path at the front.
-/

namespace TypeScribe

/-- A step down from an element to one of its parts. -/
inductive Step where
  /-- A numbered item of a field. -/
  | item (field : String) (index : Nat)
  /-- A field, or an entry under its own name. -/
  | key (name : String)
deriving DecidableEq, Repr

/-- How a step is written in a path. -/
def Step.text : Step → String
  | .item field index => "." ++ field ++ "[" ++ toString index ++ "]"
  | .key name => "." ++ name

/-- How the steps of a path are written. -/
def pathText (steps : List Step) : String :=
  String.join (steps.map Step.text)

/-- A required text that is blank: of what kind of thing, in which field, and the way to the thing. -/
structure MissingField where
  kind : Kind
  field : String
  steps : List Step := []
deriving DecidableEq, Repr

namespace MissingField

/-- The same defect, seen from one step further up. -/
def under (m : MissingField) (step : Step) : MissingField :=
  { m with steps := step :: m.steps }

/-- The path to the thing that lacks the text, from an element at the given place. -/
def path (m : MissingField) (place : String) : String :=
  place ++ pathText m.steps

theorem path_under (m : MissingField) (step : Step) (place : String) :
    (m.under step).path place = m.path (place ++ step.text) := by
  apply String.ext
  simp [path, under, pathText, String.toList_join]

end MissingField

/-- A required text of a thing: missing when it is blank. -/
def require (kind : Kind) (field text : String) : Option MissingField :=
  if isBlank text then some { kind, field } else none

/-- An optional text: missing when it is there and blank. -/
def requireSome (kind : Kind) (field : String) (text : Option String) : Option MissingField :=
  text.bind (require kind field)

theorem require_eq_none_iff {kind : Kind} {field text : String} :
    require kind field text = none ↔ isBlank text = false := by
  simp [require]

/-- The first defect in a list of parts, each checked under its own index. -/
def firstMissing {α : Type} (check : Nat → α → Option MissingField) (index : Nat) :
    List α → Option MissingField
  | [] => none
  | a :: rest => (check index a).or (firstMissing check (index + 1) rest)

/-- A field needs a name and a type. A blank name is found by its number, a blank type by the name. -/
def Field.missing? (kind : Kind) (list : String) (index : Nat) (f : Field) : Option MissingField :=
  ((require kind list f.name).map (·.under (.item list index))).or
    ((require kind list f.type).map fun m => (m.under (.key f.name)).under (.key list))

/-- The first blank name or type of a list of fields. -/
def Fields.missing? (kind : Kind) (list : String) (fields : Fields) : Option MissingField :=
  firstMissing (Field.missing? kind list) 0 fields

mutual

/-- The first blank expression of a value. -/
def Value.missing? (kind : Kind) : Value → Option MissingField
  | .raw text => require kind "value" text
  | .object entries => ObjectLiteral.missing? kind entries

/-- The first blank expression of an object literal, each entry under its key. -/
def ObjectLiteral.missing? (kind : Kind) : List ObjectEntry → Option MissingField
  | [] => none
  | ⟨key, value⟩ :: rest =>
    ((value.missing? kind).map (·.under (.key key))).or (ObjectLiteral.missing? kind rest)

end

/-- What a constant lacks. The entries of an object stand under the constant's value. -/
def Constant.missing? (c : Constant) : Option MissingField :=
  (require .constDecl "name" c.name).or <|
    match c.value with
    | .raw text => require .constDecl "value" text
    | .object entries => (ObjectLiteral.missing? .constDecl entries).map (·.under (.key "value"))

/-- What a type alias lacks. -/
def TypeAlias.missing? (t : TypeAlias) : Option MissingField :=
  (require .typeDecl "name" t.name).or (require .typeDecl "value" t.value)

/-- What an interface lacks. -/
def Interface.missing? (i : Interface) : Option MissingField :=
  (require .interfaceDecl "name" i.name).or (Fields.missing? .interfaceDecl "properties" i.properties)

/-- What an enum member lacks. -/
def EnumMember.missing? : EnumMember → Option MissingField
  | .bare name => require .enumMember "name" name
  | .valued name value => (require .enumMember "name" name).or (require .enumMember "value" value)

/-- What an enum lacks. -/
def Enumeration.missing? (e : Enumeration) : Option MissingField :=
  (require .enumDecl "name" e.name).or
    (firstMissing (fun i m => m.missing?.map (·.under (.item "members" i))) 0 e.members)

/-- What a class property lacks. -/
def ClassProperty.missing? (p : ClassProperty) : Option MissingField :=
  (require .property "name" p.name).or <|
    (requireSome .property "type" p.type).or (requireSome .property "value" p.value)

/-- What a signature lacks. -/
def Signature.missing? (kind : Kind) (s : Signature) : Option MissingField :=
  (Fields.missing? kind "args" s.args).or (requireSome kind "returnType" s.returnType)

/-- What a function lacks apart from its body. -/
def FunctionHead.missing? (f : FunctionHead) : Option MissingField :=
  (require .functionDecl "name" f.name).or (f.signature.missing? .functionDecl)

/-- What a method lacks apart from its body. The result type of a constructor is not looked at. -/
def MethodHead.missing? (m : MethodHead) : Option MissingField :=
  (require .method "name" m.name).or <|
    if m.isConstructor then Fields.missing? .method "args" m.signature.args
    else m.signature.missing? .method

/-- What a class lacks apart from its methods. -/
def ClassHead.missing? (c : ClassHead) : Option MissingField :=
  (require .classDecl "name" c.name).or <|
    (requireSome .classDecl "extends" c.parent).or <|
      (firstMissing (fun i name =>
        (require .classDecl "implements" name).map (·.under (.item "implements" i))) 0 c.implements).or
        (firstMissing (fun i p => p.missing?.map (·.under (.item "properties" i))) 0 c.properties)

mutual

/-- The first blank required text of an element: its own texts first, then its parts in order. -/
def Element.missing? : Element → Option MissingField
  | .constDecl decl => decl.missing?
  | .typeDecl decl => decl.missing?
  | .interfaceDecl decl => decl.missing?
  | .functionDecl head body => head.missing?.or (Statement.missing? "body" 0 body)
  | .arrowFunction signature body =>
    (signature.missing? .arrowFunction).or (Statement.missing? "body" 0 body)
  | .classDecl head methods => head.missing?.or (Method.missing? 0 methods)
  | .enumDecl decl => decl.missing?
  | .ifElse condition body none =>
    (require .ifElse "condition" condition).or (Statement.missing? "body" 0 body)
  | .ifElse condition body (some otherwise) =>
    (require .ifElse "condition" condition).or <|
      (Statement.missing? "body" 0 body).or (Statement.missing? "else" 0 otherwise)
  | .forLoop _ body => Statement.missing? "body" 0 body
  | .forOfLoop iteration body =>
    (require .forOfLoop "variable" iteration.binder).or <|
      (require .forOfLoop "iterable" iteration.iterable).or (Statement.missing? "body" 0 body)

/-- The first defect of a body whose items are counted from an index; verbatim items may be blank. -/
def Statement.missing? (field : String) (index : Nat) : List Statement → Option MissingField
  | [] => none
  | .raw _ :: rest => Statement.missing? field (index + 1) rest
  | .element e :: rest =>
    (e.missing?.map (·.under (.item field index))).or (Statement.missing? field (index + 1) rest)

/-- The first defect of a list of methods counted from an index. -/
def Method.missing? (index : Nat) : List Method → Option MissingField
  | [] => none
  | ⟨head, body⟩ :: rest =>
    ((head.missing?.or (Statement.missing? "body" 0 body)).map (·.under (.item "methods" index))).or
      (Method.missing? (index + 1) rest)

end

/-- Why a tree cannot be laid out: a thing of some kind at a path lacks a required text. -/
structure RenderError where
  kind : Kind
  field : String
  path : String
deriving DecidableEq, Repr

/-- The error in words. -/
def RenderError.message (e : RenderError) : String :=
  e.kind.word ++ " element at `" ++ e.path ++ "` is missing required field `" ++ e.field ++ "`"

/-- A defect of an element that stands at a place. -/
def MissingField.at (m : MissingField) (place : String) : RenderError :=
  ⟨m.kind, m.field, m.path place⟩

/-- Checks an element that stands at a place. -/
def Element.validate (e : Element) (place : String) : Except RenderError Unit :=
  match e.missing? with
  | some m => .error (m.at place)
  | none => .ok ()

end TypeScribe

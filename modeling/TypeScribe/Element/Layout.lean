import TypeScribe.Layout.Splice
import TypeScribe.Element.Basic

/-!
# The code of an element

Each kind of element as fragments. Only an element at the top level shows that it is exported. A loop is
followed by an empty line; between two elements of a body stands one empty line.

* `Element.fragments_ne_nil`: every element writes something.
-/

namespace TypeScribe

/-- The keyword in front of a declaration that is exported and stands at the top level. -/
def exportMark (exported topLevel : Bool) : String :=
  if exported && topLevel then "export " else ""

/-- A type after a name, if there is one. -/
def typeMark : Option String → String
  | none => ""
  | some type => ": " ++ type

/-- A parameter or member with its type. -/
def Field.text (f : Field) : String := f.name ++ ": " ++ f.type

/-- Parameters as they stand between parentheses. -/
def Fields.params (fields : Fields) : String :=
  ", ".intercalate (fields.map Field.text)

/-- Parameters in parentheses and the type of the result. -/
def Signature.text (s : Signature) : String :=
  "(" ++ Fields.params s.args ++ ")" ++ typeMark s.returnType

/-- A visibility with a space after it. -/
def visibilityMark : Option Visibility → String
  | none => ""
  | some v => v.word ++ " "

/-- The keyword of a static member. -/
def staticMark (isStatic : Bool) : String := if isStatic then "static " else ""

mutual

/-- An entry of an object literal with what follows it. -/
def Value.entryFragments (key comma : String) : Value → List Fragment
  | .raw text => splice (key ++ ": ") text comma
  | .object entries => [braced (key ++ ":") (ObjectLiteral.fragments entries) comma]

/-- The entries of an object literal, with commas between them. -/
def ObjectLiteral.fragments : List ObjectEntry → List Fragment
  | [] => []
  | [⟨key, value⟩] => value.entryFragments key ""
  | ⟨key, value⟩ :: next :: rest => value.entryFragments key "," ++ ObjectLiteral.fragments (next :: rest)

end

/-- A constant with its value. -/
def Constant.fragments (topLevel : Bool) (c : Constant) : List Fragment :=
  let head := exportMark c.exported topLevel ++ "const " ++ c.name ++ " ="
  match c.value with
  | .raw text => splice (head ++ " ") text ";"
  | .object entries => [braced head (ObjectLiteral.fragments entries) ";"]

/-- A type alias. -/
def TypeAlias.fragments (topLevel : Bool) (t : TypeAlias) : List Fragment :=
  splice (exportMark t.exported topLevel ++ "type " ++ t.name ++ " = ") t.value ";"

/-- An interface; the type of a property may span lines. -/
def Interface.fragments (topLevel : Bool) (i : Interface) : List Fragment :=
  [braced (exportMark i.exported topLevel ++ "interface " ++ i.name)
    (i.properties.flatMap fun f => splice (f.name ++ ": ") f.type ";") ""]

/-- The line of an enum member. -/
def EnumMember.line : EnumMember → String
  | .bare name => name ++ ","
  | .valued name value => name ++ " = " ++ value ++ ","

/-- An enum with one line for each member. -/
def Enumeration.fragments (topLevel : Bool) (e : Enumeration) : List Fragment :=
  [braced (exportMark e.exported topLevel ++ "enum " ++ e.name) (e.members.map fun m => .line m.line) ""]

/-- What stands in front of the value of a class property. -/
def ClassProperty.head (p : ClassProperty) : String :=
  visibilityMark p.visibility ++ staticMark p.isStatic ++ (if p.isReadonly then "readonly " else "")
    ++ p.name ++ typeMark p.type

/-- A class property, one fragment even if its value spans lines. -/
def ClassProperty.fragment (p : ClassProperty) : Fragment :=
  match p.value with
  | some value => .sequence (splice (p.head ++ " = ") value ";")
  | none => .line (p.head ++ ";")

/-- The header line of a function. -/
def FunctionHead.text (topLevel : Bool) (f : FunctionHead) : String :=
  exportMark f.exported topLevel ++ "function " ++ f.name ++ f.signature.text

/-- The header line of a method. A constructor shows its parameters only. -/
def MethodHead.text (m : MethodHead) : String :=
  if m.isConstructor then MethodHead.constructorName ++ "(" ++ Fields.params m.signature.args ++ ")"
  else visibilityMark m.visibility ++ staticMark m.isStatic ++ m.name ++ m.signature.text

/-- The header line of a class. -/
def ClassHead.text (topLevel : Bool) (c : ClassHead) : String :=
  exportMark c.exported topLevel ++ "class " ++ c.name
    ++ (match c.parent with
      | none => ""
      | some parent => " extends " ++ parent)
    ++ (if c.implements.isEmpty then "" else " implements " ++ ", ".intercalate c.implements)

/-- The header line of a branch. -/
def branchText (condition : String) : String := "if (" ++ condition ++ ")"

/-- The line between the two branches. -/
def elseText : String := closeBrace ++ " else " ++ openBrace

/-- The header line of a loop with three clauses. -/
def LoopClauses.text (c : LoopClauses) : String :=
  "for (" ++ c.initializer ++ "; " ++ c.condition ++ "; " ++ c.incrementor ++ ")"

/-- The header line of a loop over the items of something. -/
def Iteration.text (i : Iteration) : String :=
  "for (const " ++ i.binder ++ " of " ++ i.iterable ++ ")"

/-- A loop with the empty line that follows it. -/
def loopFragments (header : String) (body : List Fragment) : List Fragment :=
  [.sequence [braced header body "", .blank]]

/-- Two branches, both of which span lines even if they are empty. -/
def branchFragments (header : String) (body otherwise : List Fragment) : List Fragment :=
  [.block (headed header ++ openBrace) body none, .block elseText otherwise (some closeBrace)]

mutual

/-- The fragments of an element. -/
def Element.fragments (topLevel : Bool) : Element → List Fragment
  | .constDecl decl => decl.fragments topLevel
  | .typeDecl decl => decl.fragments topLevel
  | .interfaceDecl decl => decl.fragments topLevel
  | .functionDecl head body => [braced (head.text topLevel) (Statement.fragments [] body) ""]
  | .arrowFunction signature body => [braced (signature.text ++ " =>") (Statement.fragments [] body) ";"]
  | .classDecl head methods =>
    [braced (head.text topLevel)
      (head.properties.map ClassProperty.fragment ++ Method.fragments head.properties.isEmpty methods) ""]
  | .enumDecl decl => decl.fragments topLevel
  | .ifElse condition body none => [braced (branchText condition) (Statement.fragments [] body) ""]
  | .ifElse condition body (some otherwise) =>
    branchFragments (branchText condition) (Statement.fragments [] body) (Statement.fragments [] otherwise)
  | .forLoop clauses body => loopFragments clauses.text (Statement.fragments [] body)
  | .forOfLoop iteration body => loopFragments iteration.text (Statement.fragments [] body)

/-- The fragments of a body. The gap stands in front of an element: one empty line if an element that does
not end on one stands right before it, and nothing otherwise. -/
def Statement.fragments (gap : List Fragment) : List Statement → List Fragment
  | [] => []
  | .raw text :: rest => rawFragments text ++ Statement.fragments [] rest
  | .element e :: rest =>
    gap ++ e.fragments false
      ++ Statement.fragments (if endsWithBlank (e.fragments false) then [] else [.blank]) rest

/-- The fragments of methods, each with an empty line in front unless it is the first member. -/
def Method.fragments (isFirst : Bool) : List Method → List Fragment
  | [] => []
  | ⟨head, body⟩ :: rest =>
    (if isFirst then [] else [.blank]) ++ braced head.text (Statement.fragments [] body) ""
      :: Method.fragments false rest

end

theorem splice_ne_nil (head text tail : String) : splice head text tail ≠ [] := by
  intro h
  have := splice_length head text tail
  rw [h, List.length_nil] at this
  omega

theorem Element.fragments_ne_nil (topLevel : Bool) (e : Element) : e.fragments topLevel ≠ [] := by
  cases e with
  | constDecl decl =>
    rw [Element.fragments, Constant.fragments]
    split
    · exact splice_ne_nil _ _ _
    · simp
  | typeDecl decl => exact splice_ne_nil _ _ _
  | ifElse condition body otherwise => cases otherwise <;> simp [Element.fragments, branchFragments]
  | _ => simp [Element.fragments, Interface.fragments, Enumeration.fragments, loopFragments]

end TypeScribe

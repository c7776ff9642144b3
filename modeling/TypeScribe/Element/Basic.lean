/-!
# Elements

The declarations and statements that a file is made of, as a tree: constants, type aliases, interfaces,
functions, classes, enums, branches and loops. Names, types, expressions and statements are verbatim texts.

* `Element.kind`, `Kind.word`: the word that tells each kind of element.
-/

namespace TypeScribe

/-- A name with its type: a parameter or a member of an interface. -/
structure Field where
  name : String
  type : String
deriving DecidableEq, Repr

/-- Fields in the order in which they are written. -/
abbrev Fields := List Field

mutual

/-- The value of a constant: a verbatim expression or an object literal. -/
inductive Value where
  | raw (text : String)
  | object (entries : List ObjectEntry)

/-- A key of an object literal with its value. -/
structure ObjectEntry where
  key : String
  value : Value

end

/-- The entries of an object literal in the order in which they are written. -/
abbrev ObjectLiteral := List ObjectEntry

/-- Who may see a class member. -/
inductive Visibility where
  | pub
  | priv
  | prot
deriving DecidableEq, Repr

/-- The keyword of a visibility. -/
def Visibility.word : Visibility → String
  | .pub => "public"
  | .priv => "private"
  | .prot => "protected"

/-- Parameters and, if it is written, the type of the result. -/
structure Signature where
  args : Fields := []
  returnType : Option String := none
deriving DecidableEq, Repr

/-- A named constant. -/
structure Constant where
  name : String
  value : Value
  exported : Bool := false

/-- A name for a type. -/
structure TypeAlias where
  name : String
  value : String
  exported : Bool := false
deriving DecidableEq, Repr

/-- A named list of typed properties. -/
structure Interface where
  name : String
  properties : Fields := []
  exported : Bool := false
deriving DecidableEq, Repr

/-- A member of an enum, with its value if one is written. -/
inductive EnumMember where
  | bare (name : String)
  | valued (name value : String)
deriving DecidableEq, Repr

/-- The name of an enum member. -/
def EnumMember.name : EnumMember → String
  | .bare name => name
  | .valued name _ => name

/-- A named list of members. -/
structure Enumeration where
  name : String
  members : List EnumMember := []
  exported : Bool := false
deriving DecidableEq, Repr

/-- A property of a class. -/
structure ClassProperty where
  name : String
  visibility : Option Visibility := none
  isStatic : Bool := false
  isReadonly : Bool := false
  type : Option String := none
  value : Option String := none
deriving DecidableEq, Repr

/-- What a function is apart from its body. -/
structure FunctionHead where
  name : String
  signature : Signature := {}
  exported : Bool := false
deriving DecidableEq, Repr

/-- What a method is apart from its body. -/
structure MethodHead where
  name : String
  visibility : Option Visibility := none
  isStatic : Bool := false
  signature : Signature := {}
deriving DecidableEq, Repr

/-- The name that makes a method the constructor. -/
def MethodHead.constructorName : String := "constructor"

/-- A method of that name is the constructor: it has neither modifiers nor a result. -/
def MethodHead.isConstructor (m : MethodHead) : Bool := m.name == constructorName

/-- What a class is apart from its methods. -/
structure ClassHead where
  name : String
  parent : Option String := none
  implements : List String := []
  properties : List ClassProperty := []
  exported : Bool := false
deriving DecidableEq, Repr

/-- The three clauses of a loop; each may be empty. -/
structure LoopClauses where
  initializer : String := ""
  condition : String := ""
  incrementor : String := ""
deriving DecidableEq, Repr

/-- What a loop runs over. -/
structure Iteration where
  binder : String
  iterable : String
deriving DecidableEq, Repr

mutual

/-- One construct of the tree. -/
inductive Element where
  | constDecl (decl : Constant)
  | typeDecl (decl : TypeAlias)
  | interfaceDecl (decl : Interface)
  | functionDecl (head : FunctionHead) (body : List Statement)
  | arrowFunction (signature : Signature) (body : List Statement)
  | classDecl (head : ClassHead) (methods : List Method)
  | enumDecl (decl : Enumeration)
  | ifElse (condition : String) (body : List Statement) (otherwise : Option (List Statement))
  | forLoop (clauses : LoopClauses) (body : List Statement)
  | forOfLoop (iteration : Iteration) (body : List Statement)

/-- An item of a body: verbatim text or a nested element. -/
inductive Statement where
  | raw (text : String)
  | element (element : Element)

/-- A method of a class. -/
structure Method where
  head : MethodHead
  body : List Statement

end

/-- The kinds of things that have required texts: the elements, and the parts of classes and enums. -/
inductive Kind where
  | constDecl | typeDecl | interfaceDecl | functionDecl | arrowFunction | classDecl | method | property
  | enumDecl | enumMember | ifElse | forLoop | forOfLoop
deriving DecidableEq, Repr

/-- The word for a kind; for an element it is also the tag that it has in a document. -/
def Kind.word : Kind → String
  | .constDecl => "const"
  | .typeDecl => "type"
  | .interfaceDecl => "interface"
  | .functionDecl => "function"
  | .arrowFunction => "arrowFunction"
  | .classDecl => "class"
  | .method => "method"
  | .property => "property"
  | .enumDecl => "enum"
  | .enumMember => "enum member"
  | .ifElse => "if"
  | .forLoop => "for"
  | .forOfLoop => "forOf"

theorem Kind.word_injective {a b : Kind} (h : a.word = b.word) : a = b := by
  cases a <;> cases b <;> simp_all [word]

/-- The kind of an element. -/
def Element.kind : Element → Kind
  | .constDecl _ => .constDecl
  | .typeDecl _ => .typeDecl
  | .interfaceDecl _ => .interfaceDecl
  | .functionDecl .. => .functionDecl
  | .arrowFunction .. => .arrowFunction
  | .classDecl .. => .classDecl
  | .enumDecl _ => .enumDecl
  | .ifElse .. => .ifElse
  | .forLoop .. => .forLoop
  | .forOfLoop .. => .forOfLoop

end TypeScribe

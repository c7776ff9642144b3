import TypeScribe.Element.Basic

/-!
# Building elements step by step

Each step adds one part at its end or sets one property. Nothing is checked and nothing is merged: a name
added twice is there twice. A step that an element has no place for leaves it as it is.
-/

namespace TypeScribe

/-- The union of types under a name. -/
def TypeAlias.union (name : String) (members : List String) : TypeAlias :=
  { name, value := " | ".intercalate members }

namespace ObjectLiteral

/-- Adds a key with a verbatim value. -/
def addRaw (o : ObjectLiteral) (key text : String) : ObjectLiteral := o ++ [⟨key, .raw text⟩]

/-- Adds a key with a nested object. -/
def addObject (o : ObjectLiteral) (key : String) (inner : ObjectLiteral) : ObjectLiteral :=
  o ++ [⟨key, .object inner⟩]

/-- Adds a key whose value is the name itself. -/
def addShorthand (o : ObjectLiteral) (name : String) : ObjectLiteral := o.addRaw name name

end ObjectLiteral

/-- Adds a parameter. -/
def Signature.addArg (s : Signature) (name type : String) : Signature :=
  { s with args := s.args ++ [⟨name, type⟩] }

/-- Sets the type of the result. -/
def Signature.returning (s : Signature) (type : String) : Signature :=
  { s with returnType := some type }

namespace Method

/-- A method without modifiers, parameters and body. -/
def ofName (name : String) : Method := ⟨{ name }, []⟩

/-- A constructor. -/
def constructor : Method := ofName MethodHead.constructorName

/-- Changes what the method is apart from its body. -/
def mapHead (f : MethodHead → MethodHead) (m : Method) : Method := ⟨f m.head, m.body⟩

/-- Sets the visibility. -/
def withVisibility (v : Visibility) (m : Method) : Method := m.mapHead ({ · with visibility := some v })

/-- Makes the method static. -/
def makeStatic (m : Method) : Method := m.mapHead ({ · with isStatic := true })

/-- Adds a parameter. -/
def addArg (name type : String) (m : Method) : Method :=
  m.mapHead fun h => { h with signature := h.signature.addArg name type }

/-- Sets the type of the result. -/
def returning (type : String) (m : Method) : Method :=
  m.mapHead fun h => { h with signature := h.signature.returning type }

/-- Adds an item to the body. -/
def addStatement (s : Statement) (m : Method) : Method := ⟨m.head, m.body ++ [s]⟩

end Method

namespace Element

/-- Marks a declaration as exported. -/
def makeExported : Element → Element
  | .constDecl decl => .constDecl { decl with exported := true }
  | .typeDecl decl => .typeDecl { decl with exported := true }
  | .interfaceDecl decl => .interfaceDecl { decl with exported := true }
  | .functionDecl head body => .functionDecl { head with exported := true } body
  | .classDecl head methods => .classDecl { head with exported := true } methods
  | .enumDecl decl => .enumDecl { decl with exported := true }
  | e => e

/-- Adds an item to the body of a function or loop, or to the first branch of a condition. -/
def addStatement (s : Statement) : Element → Element
  | .functionDecl head body => .functionDecl head (body ++ [s])
  | .arrowFunction signature body => .arrowFunction signature (body ++ [s])
  | .ifElse condition body otherwise => .ifElse condition (body ++ [s]) otherwise
  | .forLoop clauses body => .forLoop clauses (body ++ [s])
  | .forOfLoop iteration body => .forOfLoop iteration (body ++ [s])
  | e => e

/-- Adds an item to the second branch of a condition, which it opens if there is none. -/
def addElse (s : Statement) : Element → Element
  | .ifElse condition body otherwise => .ifElse condition body (some (otherwise.getD [] ++ [s]))
  | e => e

/-- Changes the signature of a function. -/
def mapSignature (f : Signature → Signature) : Element → Element
  | .functionDecl head body => .functionDecl { head with signature := f head.signature } body
  | .arrowFunction signature body => .arrowFunction (f signature) body
  | e => e

/-- Adds a property to an interface. -/
def addField (name type : String) : Element → Element
  | .interfaceDecl decl => .interfaceDecl { decl with properties := decl.properties ++ [⟨name, type⟩] }
  | e => e

/-- Adds a member to an enum. -/
def addMember (member : EnumMember) : Element → Element
  | .enumDecl decl => .enumDecl { decl with members := decl.members ++ [member] }
  | e => e

/-- Changes what a class is apart from its methods. -/
def mapClass (f : ClassHead → ClassHead) : Element → Element
  | .classDecl head methods => .classDecl (f head) methods
  | e => e

/-- Sets the class that a class extends. -/
def extending (parent : String) : Element → Element :=
  mapClass ({ · with parent := some parent })

/-- Adds an interface that a class implements. -/
def implementing (name : String) : Element → Element :=
  mapClass fun h => { h with implements := h.implements ++ [name] }

/-- Adds a property to a class. -/
def addProperty (p : ClassProperty) : Element → Element :=
  mapClass fun h => { h with properties := h.properties ++ [p] }

/-- Adds a method to a class. -/
def addMethod (m : Method) : Element → Element
  | .classDecl head methods => .classDecl head (methods ++ [m])
  | e => e

end Element

end TypeScribe

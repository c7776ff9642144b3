import TypeScribe.Layout.Splice
import TypeScribe.Element.Edit
import TypeScribe.Element.Layout
import TypeScribe.Service.Basic

/-!
# The declarations of a service

A service becomes a constant with the names of its fields and keys, an interface of the unions of these
names, an enum for each enum type, an interface for each entity type, an interface that describes the whole
service, and a client class with one instance.

* `ServiceModel.elements_length`: four declarations, and one for each enum type and each entity type.
-/

namespace TypeScribe

/-- A name in double quotes, as it stands. -/
def quoted (name : String) : String := "\"" ++ name ++ "\""

/-- A constant tuple of quoted names. -/
def constTuple (names : List String) : String :=
  "[" ++ ", ".intercalate (names.map quoted) ++ "] as const"

/-- An object type on one line. -/
def inlineType (members : Fields) : String :=
  if members.isEmpty then openBrace ++ closeBrace
  else openBrace ++ " " ++ "; ".intercalate (members.map Field.text) ++ " " ++ closeBrace

/-- The type of an operation; without a result type it returns nothing. -/
def Operation.type (o : Operation) : String :=
  "(" ++ Fields.params o.parameters ++ ") => " ++ o.returnType.getD "void"

namespace ServiceModel

/-- The name of the constant with field and key names. -/
def constsName (m : ServiceModel) : String := m.name ++ "Consts"

/-- The name of the client class. -/
def clientName (m : ServiceModel) : String := m.name ++ "Client"

/-- The entry of an entity type: the tuples of its field names and of its keys. -/
def entityEntry (t : EntityType) : ObjectEntry :=
  ⟨t.name, .object [⟨"fields", .raw (constTuple (t.properties.map Field.name))⟩,
    ⟨"keys", .raw (constTuple t.keys)⟩]⟩

/-- The constant with field and key names. -/
def consts (m : ServiceModel) : Element :=
  .constDecl { name := m.constsName, value := .object (m.entityTypes.map entityEntry), exported := true }

/-- The union of the names in one tuple of an entity type. -/
def nameUnion (m : ServiceModel) (t : EntityType) (tuple : String) : String :=
  "(typeof " ++ m.constsName ++ ")[" ++ quoted t.name ++ "][" ++ quoted tuple ++ "][number]"

/-- The interface of the unions of field and key names. -/
def entityKeys (m : ServiceModel) : Element :=
  .interfaceDecl {
    name := m.name ++ "EntityKeys"
    properties := m.entityTypes.map fun t =>
      ⟨t.name, inlineType [⟨"fields", m.nameUnion t "fields"⟩, ⟨"keys", m.nameUnion t "keys"⟩]⟩
    exported := true }

/-- The enum of an enum type. -/
def enumElement (e : EnumType) : Element :=
  .enumDecl { name := e.name, members := e.members, exported := true }

/-- The interface of an entity type. -/
def entityElement (t : EntityType) : Element :=
  .interfaceDecl { name := t.name, properties := t.properties, exported := true }

/-- The members that describe operations. -/
def signatures (ops : List Operation) : String :=
  inlineType (ops.map fun o => ⟨o.name, o.type⟩)

/-- The interface that describes the service. -/
def description (m : ServiceModel) : Element :=
  .interfaceDecl {
    name := m.name ++ "Service"
    properties := [
      ⟨"entitySets", inlineType (m.entitySets.map fun s => ⟨s.name, s.entityType⟩)⟩,
      ⟨"entityTypes", inlineType (m.entityTypes.map fun t => ⟨t.name, t.name⟩)⟩,
      ⟨"enumTypes", inlineType (m.enumTypes.map fun e => ⟨e.name, e.name⟩)⟩,
      ⟨"actions", signatures m.actions⟩,
      ⟨"functions", signatures m.functions⟩]
    exported := true }

/-- The method that makes the one instance of the client when it is first asked for. -/
def instanceMethod (client : String) : Method :=
  ⟨{ name := "getInstance", visibility := some .pub, isStatic := true,
     signature := { returnType := some client } },
   [.element (.ifElse ("!" ++ client ++ ".instance")
      [.raw (client ++ ".instance = new " ++ client ++ "();")] none),
    .raw ("return " ++ client ++ ".instance;")]⟩

/-- The client class. -/
def client (m : ServiceModel) : Element :=
  .classDecl {
    name := m.clientName
    properties := [
      { name := "instance?", visibility := some .priv, isStatic := true, type := some m.clientName },
      { name := "serviceName", isStatic := true, isReadonly := true, value := some (quoted m.name) }]
    exported := true }
    [.constructor, instanceMethod m.clientName]

/-- All declarations in the order in which they are written. -/
def elements (m : ServiceModel) : List Element :=
  [m.consts, m.entityKeys] ++ m.enumTypes.map enumElement ++ m.entityTypes.map entityElement
    ++ [m.description, m.client]

theorem elements_length (m : ServiceModel) :
    m.elements.length = 4 + m.enumTypes.length + m.entityTypes.length := by
  simp [elements]
  omega

end ServiceModel

end TypeScribe

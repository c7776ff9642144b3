import TypeScribe.Tree.Record
import TypeScribe.Element.Edit

/-!
# Elements of a document

An element is a table with a tag. The tag may stand anywhere among the entries; the table is read whole, its
tag apart, before the fields are decoded. An element of the top level may also be an array that begins with
the tag. A statement is a text or an element, and a value is a verbatim scalar or an object table.
-/

namespace TypeScribe

/-- Fields as a table with free names. -/
def readFields : Node → Read Fields :=
  readFree Field.name (fun name type => ⟨name, type⟩) readText

/-- The words for visibilities. -/
def visibilities : List (String × Visibility) :=
  [("public", .pub), ("private", .priv), ("protected", .prot)]

/-- The visibility of a class member. -/
def readVisibility (mode : Mode) : Node → Read Visibility := readChoice visibilities mode

/-- An object table: its mark and its entries. -/
def objectRecord (mode : Mode) (value : Node → Read Value) : Record ObjectLiteral where
  name := "ObjectDef"
  columns := [
    .optional "type" (readOptional (readChoice [("object", ())] mode)) fun _ o => o,
    .optional "properties" (readFree ObjectEntry.key (fun key v => ⟨key, v⟩) value) fun entries _ => entries]
  blank := []

/-- A value nested at most so deep. -/
def readValueWithin (mode : Mode) : Nat → Node → Read Value
  | 0, _ => .error .unread
  | depth + 1, n =>
    match n.verbatim?, n with
    | some text, _ => .ok (.raw text)
    | none, .table span entries closed =>
      (objectRecord mode (readValueWithin mode depth)).readEntries span entries closed |>.map .object
    | none, n => .error (n.mismatch .value)

/-- A value. -/
def readValue (mode : Mode) (n : Node) : Read Value := readValueWithin mode n.height n

/-- An object table by itself, which may also be an array. -/
def readObject (mode : Mode) : Node → Read ObjectLiteral :=
  (objectRecord mode (readValue mode)).read mode

/-- A constant. -/
def constantRecord (mode : Mode) : Record Constant where
  name := "Const"
  columns := [
    .needed "name" readText fun v s => { s with name := v },
    .needed "value" (readValue mode) fun v s => { s with value := v },
    .optional "exported" readBool fun v s => { s with exported := v }]
  blank := { name := "", value := .raw "" }

/-- A type alias. -/
def aliasRecord : Record TypeAlias where
  name := "TypeAlias"
  columns := [
    .needed "name" readText fun v s => { s with name := v },
    .needed "value" readText fun v s => { s with value := v },
    .optional "exported" readBool fun v s => { s with exported := v }]
  blank := { name := "", value := "" }

/-- An interface, whose properties have two names. -/
def interfaceRecord : Record Interface where
  name := "Interface"
  columns := [
    .needed "name" readText fun v s => { s with name := v },
    (Column.optional "properties" readFields fun v s => { s with properties := v }).orNamed "value",
    .optional "exported" readBool fun v s => { s with exported := v }]
  blank := { name := "" }

/-- A valued enum member. -/
def memberRecord : Record (String × String) where
  name := "ValuedMember"
  columns := [
    .needed "name" readText fun v s => (v, s.2),
    .needed "value" readVerbatim fun v s => (s.1, v)]
  blank := ("", "")

/-- An enum member: a name, or a table of name and value. -/
def readMember : Node → Read EnumMember
  | .text _ name => .ok (.bare name)
  | .table span entries closed =>
    memberRecord.readEntries span entries closed |>.map fun (name, value) => .valued name value
  | n => .error (n.mismatch .member)

/-- An enum. -/
def enumRecord : Record Enumeration where
  name := "Enum"
  columns := [
    .needed "name" readText fun v s => { s with name := v },
    .optional "members" (readList readMember) fun v s => { s with members := v },
    .optional "exported" readBool fun v s => { s with exported := v }]
  blank := { name := "" }

/-- A class property; its value may be left out but not be null. -/
def propertyRecord (mode : Mode) : Record ClassProperty where
  name := "ClassProperty"
  columns := [
    .needed "name" readText fun v s => { s with name := v },
    .optional "visibility" (readOptional (readVisibility mode)) fun v s => { s with visibility := v },
    .optional "static" readBool fun v s => { s with isStatic := v },
    .optional "readonly" readBool fun v s => { s with isReadonly := v },
    .optional "type" (readOptional readText) fun v s => { s with type := v },
    .optional "value" readVerbatim fun v s => { s with value := some v }]
  blank := { name := "" }

/-- A statement, given how elements are decoded. -/
def readStatement (element : Node → Read Element) : Node → Read Statement
  | .text _ text => .ok (.raw text)
  | .table span entries closed => (element (.table span entries closed)).map .element
  | n => .error (n.mismatch .statement)

/-- The statements of a body, given how elements are decoded. -/
def readBody (element : Node → Read Element) : Node → Read (List Statement) :=
  readList (readStatement element)

/-- A function with its body. -/
def functionRecord (element : Node → Read Element) : Record (FunctionHead × List Statement) where
  name := "Function"
  columns := [
    .needed "name" readText fun v (h, b) => ({ h with name := v }, b),
    .optional "args" readFields fun v (h, b) => ({ h with signature.args := v }, b),
    .optional "returnType" (readOptional readText) fun v (h, b) => ({ h with signature.returnType := v }, b),
    .optional "body" (readBody element) fun v (h, _) => (h, v),
    .optional "exported" readBool fun v (h, b) => ({ h with exported := v }, b)]
  blank := ({ name := "" }, [])

/-- An arrow function with its body. -/
def arrowRecord (element : Node → Read Element) : Record (Signature × List Statement) where
  name := "ArrowFunction"
  columns := [
    .optional "args" readFields fun v (h, b) => ({ h with args := v }, b),
    .optional "returnType" (readOptional readText) fun v (h, b) => ({ h with returnType := v }, b),
    .optional "body" (readBody element) fun v (h, _) => (h, v)]
  blank := ({}, [])

/-- A method with its body. -/
def methodRecord (mode : Mode) (element : Node → Read Element) : Record Method where
  name := "Method"
  columns := [
    .needed "name" readText fun v m => m.mapHead ({ · with name := v }),
    .optional "visibility" (readOptional (readVisibility mode))
      fun v m => m.mapHead ({ · with visibility := v }),
    .optional "static" readBool fun v m => m.mapHead ({ · with isStatic := v }),
    .optional "args" readFields fun v m => m.mapHead ({ · with signature.args := v }),
    .optional "returnType" (readOptional readText)
      fun v m => m.mapHead ({ · with signature.returnType := v }),
    .optional "body" (readBody element) fun v m => ⟨m.head, v⟩]
  blank := ⟨{ name := "" }, []⟩

/-- A class with its methods. -/
def classRecord (mode : Mode) (element : Node → Read Element) : Record (ClassHead × List Method) where
  name := "Class"
  columns := [
    .needed "name" readText fun v (h, ms) => ({ h with name := v }, ms),
    .optional "extends" (readOptional readText) fun v (h, ms) => ({ h with parent := v }, ms),
    .optional "implements" (readList readText) fun v (h, ms) => ({ h with implements := v }, ms),
    .optional "properties" (readList ((propertyRecord mode).read mode)) fun v (h, ms) =>
      ({ h with properties := v }, ms),
    .optional "methods" (readList ((methodRecord mode element).read mode)) fun v (h, _) => (h, v),
    .optional "exported" readBool fun v (h, ms) => ({ h with exported := v }, ms)]
  blank := ({ name := "" }, [])

/-- A condition with its two branches. -/
structure Branches where
  condition : String := ""
  body : List Statement := []
  otherwise : Option (List Statement) := none

/-- A condition with its branches; a second branch that is null is none. -/
def branchRecord (element : Node → Read Element) : Record Branches where
  name := "If"
  columns := [
    .needed "condition" readText fun v s => { s with condition := v },
    .optional "body" (readBody element) fun v s => { s with body := v },
    .optional "else" (readOptional (readBody element)) fun v s => { s with otherwise := v }]
  blank := {}

/-- A loop with three clauses. -/
def loopRecord (element : Node → Read Element) : Record (LoopClauses × List Statement) where
  name := "For"
  columns := [
    .optional "initializer" readText fun v (c, b) => ({ c with initializer := v }, b),
    .optional "condition" readText fun v (c, b) => ({ c with condition := v }, b),
    .optional "incrementor" readText fun v (c, b) => ({ c with incrementor := v }, b),
    .optional "body" (readBody element) fun v (c, _) => (c, v)]
  blank := ({}, [])

/-- A loop over the items of something. -/
def iterationRecord (element : Node → Read Element) : Record (Iteration × List Statement) where
  name := "ForOf"
  columns := [
    .needed "variable" readText fun v (i, b) => ({ i with binder := v }, b),
    .needed "iterable" readText fun v (i, b) => ({ i with iterable := v }, b),
    .optional "body" (readBody element) fun v (i, _) => (i, v)]
  blank := (⟨"", ""⟩, [])

/-- The kinds that have a tag, in the order in which they are offered. -/
def taggedKinds : List Kind :=
  [.constDecl, .typeDecl, .interfaceDecl, .functionDecl, .arrowFunction, .classDecl, .enumDecl, .ifElse,
   .forLoop, .forOfLoop]

/-- The tags of elements. -/
def elementTags : List (String × Kind) := taggedKinds.map fun k => (k.word, k)

/-- The fields of an element of a known kind, without its tag, given how nested elements are decoded. -/
def readKind (mode : Mode) (element : Node → Read Element) (kind : Kind) (n : Node) : Read Element :=
  match kind with
  | .constDecl => ((constantRecord mode).read mode n).map .constDecl
  | .typeDecl => (aliasRecord.read mode n).map .typeDecl
  | .interfaceDecl => (interfaceRecord.read mode n).map .interfaceDecl
  | .functionDecl => ((functionRecord element).read mode n).map fun (h, b) => .functionDecl h b
  | .arrowFunction => ((arrowRecord element).read mode n).map fun (s, b) => .arrowFunction s b
  | .classDecl => ((classRecord mode element).read mode n).map fun (h, ms) => .classDecl h ms
  | .enumDecl => (enumRecord.read mode n).map .enumDecl
  | .ifElse => ((branchRecord element).read mode n).map fun s => .ifElse s.condition s.body s.otherwise
  | .forLoop => ((loopRecord element).read mode n).map fun (c, b) => .forLoop c b
  | .forOfLoop => ((iterationRecord element).read mode n).map fun (i, b) => .forOfLoop i b
  | .method | .property | .enumMember => .error .unread

/-- The key of the tag. -/
def tagKey : String := "type"

/-- Takes the tag out of some entries and reads the others whole, in the order of the text. -/
def takeTag (mode : Mode) : Option Kind → List Entry → Read (Option Kind × List Entry)
  | tag, [] => .ok (tag, [])
  | tag, ⟨key, value⟩ :: rest =>
    if key.name = tagKey then
      match tag with
      | some _ => .error (.misfit (.duplicateField tagKey) (.key key.span))
      | none => do
        let kind ← readVariant elementTags mode value
        takeTag mode (some kind) rest
    else do
      value.admitAll
      let (tag, more) ← takeTag mode tag rest
      return (tag, ⟨key, value⟩ :: more)

/-- A fault in a value that was read whole is noticed at its end. -/
def Fault.within (span : Span) : Fault → Fault
  | .misfit cause _ => .misfit cause (.element span)
  | f => f

/-- The fields of an element that was read whole. -/
def readWhole (mode : Mode) (element : Node → Read Element) (kind : Kind) (n : Node) : Read Element :=
  (readKind mode.inner element kind n).mapError (Fault.within n.span)

/-- An element nested at most so deep. -/
def readElementWithin (format : Format) : Nat → Bool → Node → Read Element
  | 0, _, _ => .error .unread
  | depth + 1, buffered, n =>
    let mode : Mode := ⟨format, buffered⟩
    let nested := readElementWithin format depth true
    match n with
    | .table span entries closed => do
      let (tag, rest) ← takeTag mode none entries
      readEnd closed
      match tag with
      | none => .error (.misfit (.missingField tagKey) (.ending span))
      | some kind => readWhole mode nested kind (.table span rest true)
    | .array span items closed =>
      match items with
      | [] => do
        readEnd closed
        .error (.misfit (.missingField tagKey) (.ending span))
      | first :: rest => do
        let kind ← readVariant elementTags mode first
        admitItems rest
        readEnd closed
        readWhole mode nested kind (.array span rest true)
    | n => .error (n.mismatch .element)

/-- An element. -/
def readElement (mode : Mode) (n : Node) : Read Element :=
  readElementWithin mode.format n.height mode.buffered n

end TypeScribe

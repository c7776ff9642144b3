import TypeScribe.Document.Basic
import TypeScribe.Proofs.Texts
import TypeScribe.Proofs.Trees

/-!
# How documents are written down

The tree that says a document: every structure is a table with one entry for each of its fields, an element with
its tag, a list of names with types a table in order. Verbatim values and statements are texts, an optional field
that is not set is left out.

* `Document.tree`: the tree of a document.
* `Document.NamesDistinct`: in no ordered list of a document does a name come twice.
-/

namespace TypeScribe

/-- The entry of a field that may not be set. -/
def optionalEntry (key : String) (t : Option Tree) : List (String × Tree) := t.toList.map (key, ·)

/-- Names with their types, in order. -/
def Fields.tree (fields : Fields) : Tree := .table (fields.map fun f => (f.name, .text f.type))

/-- A text that may not be set. -/
def textTree? (text : Option String) : Option Tree := text.map .text

/-- The entries of a signature. -/
def Signature.entries (s : Signature) : List (String × Tree) :=
  ("args", s.args.tree) :: optionalEntry "returnType" (textTree? s.returnType)

mutual

/-- A verbatim value is a text, an object a table with a mark. -/
def Value.tree : Value → Tree
  | .raw text => .text text
  | .object entries => .table [("type", .text "object"), ("properties", .table (ObjectLiteral.entries entries))]

/-- The entries of an object literal, in order. -/
def ObjectLiteral.entries : List ObjectEntry → List (String × Tree)
  | [] => []
  | ⟨key, value⟩ :: rest => (key, value.tree) :: ObjectLiteral.entries rest

end

/-- A bare member is a text, a valued one a table. -/
def EnumMember.tree : EnumMember → Tree
  | .bare name => .text name
  | .valued name value => .table [("name", .text name), ("value", .text value)]

/-- The members of an enum, in order. -/
def EnumMember.listTree (members : List EnumMember) : Tree := .array (members.map EnumMember.tree)

/-- The visibility of a class member, if it is set. -/
def visibilityEntry (v : Option Visibility) : List (String × Tree) :=
  optionalEntry "visibility" (v.map fun v => .text v.word)

/-- A class property. -/
def ClassProperty.tree (p : ClassProperty) : Tree :=
  .table (("name", .text p.name) :: (visibilityEntry p.visibility ++
    ("static", .bool p.isStatic) :: ("readonly", .bool p.isReadonly) ::
      (optionalEntry "type" (textTree? p.type) ++ optionalEntry "value" (textTree? p.value))))

/-- The table of an element: its tag and its fields. -/
def taggedTree (kind : Kind) (fields : List (String × Tree)) : Tree :=
  .table (("type", .text kind.word) :: fields)

mutual

/-- An element. -/
def Element.tree : Element → Tree
  | .constDecl c =>
    taggedTree .constDecl [("name", .text c.name), ("value", c.value.tree), ("exported", .bool c.exported)]
  | .typeDecl t =>
    taggedTree .typeDecl [("name", .text t.name), ("value", .text t.value), ("exported", .bool t.exported)]
  | .interfaceDecl i =>
    taggedTree .interfaceDecl
      [("name", .text i.name), ("properties", i.properties.tree), ("exported", .bool i.exported)]
  | .functionDecl h body =>
    taggedTree .functionDecl (("name", .text h.name) :: (h.signature.entries ++
      [("body", .array (bodyTrees body)), ("exported", .bool h.exported)]))
  | .arrowFunction s body => taggedTree .arrowFunction (s.entries ++ [("body", .array (bodyTrees body))])
  | .classDecl h methods =>
    taggedTree .classDecl (("name", .text h.name) :: (optionalEntry "extends" (textTree? h.parent) ++
      [("implements", .array (h.implements.map .text)),
       ("properties", .array (h.properties.map ClassProperty.tree)),
       ("methods", .array (methodTrees methods)), ("exported", .bool h.exported)]))
  | .enumDecl e =>
    taggedTree .enumDecl
      [("name", .text e.name), ("members", EnumMember.listTree e.members), ("exported", .bool e.exported)]
  | .ifElse condition body none =>
    taggedTree .ifElse [("condition", .text condition), ("body", .array (bodyTrees body))]
  | .ifElse condition body (some otherwise) =>
    taggedTree .ifElse [("condition", .text condition), ("body", .array (bodyTrees body)),
      ("else", .array (bodyTrees otherwise))]
  | .forLoop c body =>
    taggedTree .forLoop [("initializer", .text c.initializer), ("condition", .text c.condition),
      ("incrementor", .text c.incrementor), ("body", .array (bodyTrees body))]
  | .forOfLoop i body =>
    taggedTree .forOfLoop [("variable", .text i.binder), ("iterable", .text i.iterable),
      ("body", .array (bodyTrees body))]

/-- The statements of a body, in order: a verbatim one is a text. -/
def bodyTrees : List Statement → List Tree
  | [] => []
  | .raw text :: rest => .text text :: bodyTrees rest
  | .element e :: rest => e.tree :: bodyTrees rest

/-- The methods of a class, in order. -/
def methodTrees : List Method → List Tree
  | [] => []
  | ⟨h, body⟩ :: rest =>
    .table (("name", .text h.name) :: (visibilityEntry h.visibility ++ ("static", .bool h.isStatic) ::
      (h.signature.entries ++ [("body", .array (bodyTrees body))]))) :: methodTrees rest

end

/-- An entity type. -/
def EntityType.tree (e : EntityType) : Tree :=
  .table [("name", .text e.name), ("keys", .array (e.keys.map .text)), ("properties", e.properties.tree)]

/-- An entity set. -/
def EntitySet.tree (s : EntitySet) : Tree := .table [("name", .text s.name), ("entityType", .text s.entityType)]

/-- An enum type. -/
def EnumType.tree (e : EnumType) : Tree := .table [("name", .text e.name), ("members", EnumMember.listTree e.members)]

/-- An action or function. -/
def Operation.tree (o : Operation) : Tree :=
  .table (("name", .text o.name) :: ("parameters", o.parameters.tree) ::
    optionalEntry "returnType" (textTree? o.returnType))

/-- A service model. -/
def ServiceModel.tree (m : ServiceModel) : Tree :=
  .table [("name", .text m.name), ("entityTypes", .array (m.entityTypes.map EntityType.tree)),
    ("entitySets", .array (m.entitySets.map EntitySet.tree)),
    ("enumTypes", .array (m.enumTypes.map EnumType.tree)),
    ("actions", .array (m.actions.map Operation.tree)),
    ("functions", .array (m.functions.map Operation.tree))]

/-- The output settings. -/
def OutputSettings.tree (s : OutputSettings) : Tree :=
  .table (optionalEntry "path" (textTree? s.path) ++
    ("indent", .integer s.indent.toNat) :: ("tabs", .bool s.tabs) :: optionalEntry "banner" (textTree? s.banner))

/-- A document. -/
def Document.tree (d : Document) : Tree :=
  .table (("output", d.output.tree) :: (optionalEntry "service" (d.service.map ServiceModel.tree) ++
    [("elements", .array (d.elements.map Element.tree))]))

theorem ObjectLiteral.entries_eq (entries : ObjectLiteral) :
    ObjectLiteral.entries entries = entries.map fun e => (e.key, e.value.tree) := by
  induction entries with
  | nil => rw [ObjectLiteral.entries, List.map_nil]
  | cons e entries ih =>
    obtain ⟨key, value⟩ := e
    rw [ObjectLiteral.entries, ih, List.map_cons]

/-- A statement. -/
def Statement.tree : Statement → Tree
  | .raw text => .text text
  | .element e => e.tree

/-- A method. -/
def Method.tree (m : Method) : Tree :=
  .table (("name", .text m.head.name) :: (visibilityEntry m.head.visibility ++ ("static", .bool m.head.isStatic) ::
    (m.head.signature.entries ++ [("body", .array (bodyTrees m.body))])))

theorem bodyTrees_eq (body : List Statement) : bodyTrees body = body.map Statement.tree := by
  induction body with
  | nil => rw [bodyTrees, List.map_nil]
  | cons item body ih => cases item <;> rw [bodyTrees, ih, List.map_cons, Statement.tree]

theorem methodTrees_eq (methods : List Method) : methodTrees methods = methods.map Method.tree := by
  induction methods with
  | nil => rw [methodTrees, List.map_nil]
  | cons m methods ih =>
    obtain ⟨head, body⟩ := m
    rw [methodTrees, ih, List.map_cons, Method.tree]

/-- The tree of an element is a table with its tag. -/
theorem Element.tree_tagged (e : Element) : ∃ fields, e.tree = taggedTree e.kind fields := by
  cases e with
  | ifElse condition body otherwise => cases otherwise <;> exact ⟨_, by rw [Element.tree]; rfl⟩
  | _ => exact ⟨_, by rw [Element.tree]; rfl⟩

/-! ## Names -/

mutual

/-- The object literals in a value, at any depth. -/
def Value.literals : Value → List ObjectLiteral
  | .raw _ => []
  | .object entries => entries :: ObjectLiteral.inner entries

/-- The object literals in the values of an object literal, at any depth. -/
def ObjectLiteral.inner : List ObjectEntry → List ObjectLiteral
  | [] => []
  | ⟨_, value⟩ :: rest => value.literals ++ ObjectLiteral.inner rest

end

/-- In no object literal of a value does a key come twice. -/
def Value.KeysDistinct (v : Value) : Prop := ∀ o ∈ v.literals, (o.map ObjectEntry.key).Nodup

theorem Value.KeysDistinct.own {entries : ObjectLiteral} (h : (Value.object entries).KeysDistinct) :
    (entries.map ObjectEntry.key).Nodup :=
  h entries (by rw [Value.literals]; exact List.mem_cons_self)

theorem Value.KeysDistinct.of_mem {entries : ObjectLiteral} (h : (Value.object entries).KeysDistinct) :
    ∀ e ∈ entries, e.value.KeysDistinct := by
  have inner : ∀ es : ObjectLiteral, ∀ e ∈ es, e.value.literals ⊆ ObjectLiteral.inner es := by
    intro es
    induction es with
    | nil => exact fun _ he => absurd he List.not_mem_nil
    | cons e es ih =>
      obtain ⟨key, value⟩ := e
      rw [ObjectLiteral.inner, List.forall_mem_cons]
      exact ⟨List.subset_append_left _ _, fun e he => List.subset_append_of_subset_right _ (ih e he)⟩
  intro e he o ho
  refine h o ?_
  rw [Value.literals]
  exact List.mem_cons_of_mem _ (inner entries e he ho)

/-- The names of fields. -/
def Fields.names (fields : Fields) : List String := fields.map Field.name

/-- The names in each ordered list that stands in an element itself. -/
def Element.nameLists : Element → List (List String)
  | .constDecl c => c.value.literals.map (·.map ObjectEntry.key)
  | .interfaceDecl i => [i.properties.names]
  | .functionDecl h _ => [h.signature.args.names]
  | .arrowFunction s _ => [s.args.names]
  | .classDecl _ methods => methods.map fun m => m.head.signature.args.names
  | .typeDecl _ | .enumDecl _ | .ifElse .. | .forLoop .. | .forOfLoop .. => []

/-- The names in each ordered list of a service model. -/
def ServiceModel.nameLists (m : ServiceModel) : List (List String) :=
  m.entityTypes.map (·.properties.names) ++ (m.actions ++ m.functions).map (·.parameters.names)

/-- In no ordered list of an element or of one below it does a name come twice. -/
def Element.NamesDistinct (e : Element) : Prop := ∀ x ∈ allDepths [e], ∀ names ∈ x.nameLists, names.Nodup

/-- In no ordered list of a document does a name come twice. -/
def Document.NamesDistinct (d : Document) : Prop :=
  (∀ m ∈ d.service, ∀ names ∈ m.nameLists, names.Nodup) ∧ ∀ e ∈ d.elements, e.NamesDistinct

theorem Element.NamesDistinct.own {e : Element} (h : e.NamesDistinct) : ∀ names ∈ e.nameLists, names.Nodup :=
  h e List.mem_cons_self

/-- The names in the elements of a body are distinct. -/
theorem Element.NamesDistinct.of_bodies {e : Element} (h : e.NamesDistinct) {body : List Statement}
    (hb : body ∈ e.bodies) : ∀ x ∈ elementsOf body, x.NamesDistinct :=
  fun _ hx y hy => h y (allDepths_subset_of_bodies hb hx hy)

end TypeScribe

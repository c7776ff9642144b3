import TypeScribe.Proofs.Inert
import TypeScribe.Proofs.Signatures

/-!
# What the declarations of a service say of each other

The declarations of a service name each other in texts: the interface of names looks up the tuples in the constant of
names, the interface that describes the service names the enums and the interfaces of the entity types, and the client
names itself. Nothing in a text ties it to what it names. Where no two entity types and no two enum types have one
name, every such text names what it should.

* `Value.follow?`: what a path of keys leads to.
* `TupleReference`: a type that looks up a tuple in a constant.
* `ServiceModel.elements_refer`: all names of the declarations of a service are names of its declarations.
-/

namespace TypeScribe

/-- What a path of keys leads to in a value, if each key of it stands in its object exactly once. -/
def Value.follow? : List String → Value → Option Value
  | [], value => some value
  | key :: path, .object entries =>
    match entries.filter (·.key == key) with
    | [entry] => follow? path entry.value
    | _ => none
  | _ :: _, .raw _ => none

/-- The union of the items of a tuple that a constant holds. -/
structure TupleReference where
  constant : String
  path : List String

namespace TupleReference

/-- The type of the constant, indexed by each quoted key of the path and by all numbers. -/
def text (r : TupleReference) : String :=
  "(typeof " ++ r.constant ++ ")" ++ String.join (r.path.map fun key => "[\"" ++ key ++ "\"]") ++ "[number]"

/-- What the reference leads to if there is no constant but the given one. -/
def target? (r : TupleReference) (c : Constant) : Option Value :=
  if c.name = r.constant then c.value.follow? r.path else none

end TupleReference

/-- The enum for an enum type. -/
def EnumType.declaration (e : EnumType) : Enumeration := { name := e.name, members := e.members, exported := true }

/-- The interface for an entity type. -/
def EntityType.declaration (t : EntityType) : Interface :=
  { name := t.name, properties := t.properties, exported := true }

/-- The declarations of a service, by the parts that they have in it. -/
structure Declarations where
  names : Constant
  unions : Interface
  enums : List Enumeration
  interfaces : List Interface
  description : Interface
  client : ClassHead
  methods : List Method

namespace Declarations

/-- The declarations in the order in which they are written. -/
def elements (d : Declarations) : List Element :=
  [.constDecl d.names, .interfaceDecl d.unions] ++ d.enums.map .enumDecl ++ d.interfaces.map .interfaceDecl ++
    [.interfaceDecl d.description, .classDecl d.client d.methods]

/-- The member of the interface of names for the `j`-th entity type refers to the two tuples under its key in the
constant, and the first of them lists the properties of its interface. -/
def RefersTo (d : Declarations) (j : Nat) (t : EntityType) : Prop :=
  ∃ entries entry i, d.names.value = .object entries ∧ entries[j]? = some entry ∧
    d.elements[2 + d.enums.length + j]? = some (.interfaceDecl i) ∧ i.name = t.name ∧
    let reference tuple : TupleReference := ⟨d.names.name, [entry.key, tuple]⟩
    d.unions.properties[j]? = some ⟨t.name, memberList
      ["fields: " ++ (reference "fields").text, "keys: " ++ (reference "keys").text]⟩ ∧
    (reference "fields").target? d.names =
      some (.raw ("[" ++ ", ".intercalate (i.properties.map fun p => "\"" ++ p.name ++ "\"") ++ "] as const")) ∧
    (reference "keys").target? d.names =
      some (.raw ("[" ++ ", ".intercalate (t.keys.map fun key => "\"" ++ key ++ "\"") ++ "] as const"))

/-- One member of the description lists the names of the interfaces, and one those of the enums; each name is declared
once among them. -/
def ListsTypes (d : Declarations) : Prop :=
  d.description.properties.filter (·.name == "entityTypes") =
      [⟨"entityTypes", memberList (d.interfaces.map fun i => i.name ++ ": " ++ i.name)⟩] ∧
    (∀ i ∈ d.interfaces, d.interfaces.filter (·.name == i.name) = [i]) ∧
    d.description.properties.filter (·.name == "enumTypes") =
      [⟨"enumTypes", memberList (d.enums.map fun e => e.name ++ ": " ++ e.name)⟩] ∧
    ∀ e ∈ d.enums, d.enums.filter (·.name == e.name) = [e]

end Declarations

/-- The class holds, makes and hands out an instance of itself. -/
def NamesItself (head : ClassHead) (methods : List Method) : Prop :=
  ∃ held given, head.properties.filter (·.name == "instance?") = [held] ∧ held.type = some head.name ∧
    methods.filter (·.head.name == "getInstance") = [given] ∧ given.head.signature.returnType = some head.name ∧
    given.body = [
      .element (.ifElse ("!" ++ head.name ++ ".instance")
        [.raw (head.name ++ ".instance = new " ++ head.name ++ "();")] none),
      .raw ("return " ++ head.name ++ ".instance;")]

/-! ## Places of declarations -/

/-- The interfaces of the entity types stand behind the constant, the interface of names and the enums. -/
theorem Declarations.elements_interface {d : Declarations} {j : Nat} {i : Interface}
    (h : d.interfaces[j]? = some i) : d.elements[2 + d.enums.length + j]? = some (.interfaceDecl i) := by
  have hj : j < (d.interfaces.map Element.interfaceDecl).length := by
    rw [List.length_map]
    exact (List.getElem?_eq_some_iff.mp h).1
  have hfront : ([Element.constDecl d.names, .interfaceDecl d.unions] ++ d.enums.map Element.enumDecl).length =
      2 + d.enums.length := by
    rw [List.length_append, List.length_map]
    rfl
  rw [elements, List.append_assoc, ← hfront, List.getElem?_append_right (Nat.le_add_right _ _), Nat.add_sub_cancel_left,
    List.getElem?_append_left hj, List.getElem?_map, h]
  rfl

/-! ## Unique names -/

/-- Where no two items have one name, an item is the only one of its name. -/
theorem filter_eq_singleton_of_nodup {α : Type} {name : α → String} {l : List α} (h : (l.map name).Nodup) {a : α}
    (ha : a ∈ l) : l.filter (fun b => name b == name a) = [a] := by
  induction l with
  | nil => exact absurd ha List.not_mem_nil
  | cons b rest ih =>
    rw [List.map_cons, List.nodup_cons] at h
    obtain ⟨hb, hrest⟩ := h
    have hother : ∀ c ∈ rest, name b ≠ name c := fun c hc heq => hb (heq ▸ List.mem_map_of_mem hc)
    rw [List.filter_cons]
    rcases List.mem_cons.mp ha with rfl | ha
    · have hnone : rest.filter (fun c => name c == name a) = [] :=
        List.filter_eq_nil_iff.mpr fun c hc heq => hother c hc (beq_iff_eq.mp heq).symm
      rw [if_pos (beq_self_eq_true _), hnone]
    · rw [if_neg fun heq => hother a ha (beq_iff_eq.mp heq), ih hrest ha]

theorem Value.follow?_of_nodup {entries : List ObjectEntry} (h : (entries.map ObjectEntry.key).Nodup)
    {entry : ObjectEntry} (hentry : entry ∈ entries) (path : List String) :
    follow? (entry.key :: path) (.object entries) = follow? path entry.value := by
  rw [follow?, filter_eq_singleton_of_nodup h hentry]

/-! ## The texts of a service -/

theorem inlineType_names {α : Type} (items : List α) (name : α → String) :
    inlineType (items.map fun a => ⟨name a, name a⟩) = memberList (items.map fun a => name a ++ ": " ++ name a) := by
  rw [inlineType_eq, List.map_map]
  rfl

theorem constTuple_eq {α : Type} (items : List α) (name : α → String) : constTuple (items.map name) =
    "[" ++ ", ".intercalate (items.map fun a => "\"" ++ name a ++ "\"") ++ "] as const" := by
  rw [constTuple, List.map_map]
  rfl

namespace ServiceModel

/-- The union of the names in a tuple is a reference to it. -/
theorem nameUnion_eq (m : ServiceModel) (t : EntityType) (tuple : String) :
    m.nameUnion t tuple = TupleReference.text ⟨m.constsName, [t.name, tuple]⟩ := by
  have hopen : ")[" = ")" ++ "[" := by decide
  have hbetween : "][" = "]" ++ "[" := by decide
  have hlast : "][number]" = "]" ++ "[number]" := by decide
  have hquote : "[\"" = "[" ++ "\"" := by decide
  have hunquote : "\"]" = "\"" ++ "]" := by decide
  rw [nameUnion, TupleReference.text, hopen, hbetween, hlast, hquote, hunquote]
  simp only [quoted, List.map_cons, List.map_nil, String.join_cons, String.join_nil, String.append_empty,
    String.append_assoc]

/-- The members of the interface of names are references. -/
theorem entityKeys_members (m : ServiceModel) : ∃ i : Interface, m.entityKeys = .interfaceDecl i ∧
    i.properties = m.entityTypes.map fun t => ⟨t.name, memberList
      ["fields: " ++ TupleReference.text ⟨m.constsName, [t.name, "fields"]⟩,
        "keys: " ++ TupleReference.text ⟨m.constsName, [t.name, "keys"]⟩]⟩ := by
  refine ⟨_, rfl, List.map_congr_left fun t _ => ?_⟩
  rw [inlineType_eq, nameUnion_eq, nameUnion_eq]
  rfl

/-- The references to a key lead to the tuples of the entry with this key. -/
theorem consts_target? {m : ServiceModel} (h : (m.entityTypes.map EntityType.name).Nodup) {t : EntityType}
    (ht : t ∈ m.entityTypes) :
    Value.follow? [t.name, "fields"] (.object (m.entityTypes.map entityEntry)) =
        some (.raw (constTuple (t.properties.map Field.name))) ∧
      Value.follow? [t.name, "keys"] (.object (m.entityTypes.map entityEntry)) =
        some (.raw (constTuple t.keys)) := by
  have hkeys : ((m.entityTypes.map entityEntry).map ObjectEntry.key).Nodup := by rwa [List.map_map]
  have hentry : entityEntry t ∈ m.entityTypes.map entityEntry := List.mem_map_of_mem ht
  exact ⟨Value.follow?_of_nodup hkeys hentry ["fields"], Value.follow?_of_nodup hkeys hentry ["keys"]⟩

/-- The interface that describes a service lists its entity types and its enum types. -/
theorem description_lists (m : ServiceModel) : ∃ i : Interface, m.description = .interfaceDecl i ∧
    i.properties.filter (·.name == "entityTypes") =
      [⟨"entityTypes", memberList (m.entityTypes.map fun t => t.name ++ ": " ++ t.name)⟩] ∧
    i.properties.filter (·.name == "enumTypes") =
      [⟨"enumTypes", memberList (m.enumTypes.map fun e => e.name ++ ": " ++ e.name)⟩] := by
  rw [← inlineType_names, ← inlineType_names]
  exact ⟨_, rfl, rfl, rfl⟩

/-- The client names itself. -/
theorem client_instance (m : ServiceModel) : ∃ (head : ClassHead) (methods : List Method),
    m.client = .classDecl head methods ∧ NamesItself head methods :=
  ⟨_, _, rfl, _, _, rfl, rfl, rfl, rfl, rfl⟩

theorem elements_exported (m : ServiceModel) : ∀ e ∈ m.elements, e.exported? = some true := by
  simp only [elements, List.forall_mem_append, List.forall_mem_cons, List.forall_mem_map]
  exact ⟨⟨⟨⟨rfl, rfl, List.forall_mem_nil _⟩, fun _ _ => rfl⟩, fun _ _ => rfl⟩, rfl, rfl, List.forall_mem_nil _⟩

/-- Of a service whose entity types have different names and whose enum types have different names, every declaration
is exported, and what the declarations say of each other is so: the member of the interface of names for the `j`-th
entity type refers to its two tuples in the constant, of which one lists the properties of the `j`-th interface behind
the enums; the description lists the names that the interfaces and the enums declare; and the client names itself. -/
theorem elements_refer (m : ServiceModel) (hentities : (m.entityTypes.map EntityType.name).Nodup)
    (henums : (m.enumTypes.map EnumType.name).Nodup) :
    m.elements.length = 4 + m.enumTypes.length + m.entityTypes.length ∧
    (∀ e ∈ m.elements, e.exported? = some true) ∧
    ∃ d : Declarations, m.elements = d.elements ∧
      (d.enums.length = m.enumTypes.length ∧ d.interfaces.length = m.entityTypes.length ∧
        d.unions.properties.length = m.entityTypes.length) ∧
      (∀ j t, m.entityTypes[j]? = some t → d.RefersTo j t) ∧
      d.ListsTypes ∧ NamesItself d.client d.methods := by
  obtain ⟨unions, hunions, hmembers⟩ := m.entityKeys_members
  obtain ⟨description, hdescription, hentityTypes, henumTypes⟩ := m.description_lists
  obtain ⟨client, methods, hclient, hitself⟩ := m.client_instance
  have helements : m.elements = Declarations.elements
      ⟨{ name := m.constsName, value := .object (m.entityTypes.map entityEntry), exported := true }, unions,
        m.enumTypes.map EnumType.declaration, m.entityTypes.map EntityType.declaration, description, client,
        methods⟩ := by
    rw [elements, hunions, hdescription, hclient, Declarations.elements, List.map_map, List.map_map]
    rfl
  refine ⟨m.elements_length, m.elements_exported, _, helements, ⟨?_, ?_, ?_⟩, fun j t hj => ?_, ⟨?_, ?_, ?_, ?_⟩,
    hitself⟩
  · exact List.length_map _
  · exact List.length_map _
  · rw [hmembers, List.length_map]
  · have hentry : (m.entityTypes.map entityEntry)[j]? = some (entityEntry t) := by rw [List.getElem?_map, hj]; rfl
    have hdeclared : (m.entityTypes.map EntityType.declaration)[j]? = some t.declaration := by
      rw [List.getElem?_map, hj]; rfl
    obtain ⟨hfields, hkeys⟩ := consts_target? hentities (List.mem_of_getElem? hj)
    refine ⟨_, _, _, rfl, hentry, Declarations.elements_interface hdeclared, rfl, ?_, ?_, ?_⟩
    · rw [hmembers, List.getElem?_map, hj]
      rfl
    · rw [TupleReference.target?, if_pos rfl, ← constTuple_eq]
      exact hfields
    · rw [TupleReference.target?, if_pos rfl, ← constTuple_eq, List.map_id']
      exact hkeys
  · rw [hentityTypes, List.map_map]
    rfl
  · exact fun i hi => filter_eq_singleton_of_nodup (by rwa [List.map_map]) hi
  · rw [henumTypes, List.map_map]
    rfl
  · exact fun e he => filter_eq_singleton_of_nodup (by rwa [List.map_map]) he

/-- Two entity types, one of them with the name of the enum type. -/
theorem elements_refer_shared_name :
    ["Order", "Status"].Nodup ∧ ["Status"].Nodup ∧
      ∃ d : Declarations, (ServiceModel.mk "Shop" [⟨"Order", ["id"], [⟨"id", "string"⟩]⟩, ⟨"Status", [], []⟩] []
          [⟨"Status", [.bare "Open"]⟩] [] []).elements = d.elements ∧
        d.RefersTo 0 ⟨"Order", ["id"], [⟨"id", "string"⟩]⟩ ∧ d.RefersTo 1 ⟨"Status", [], []⟩ ∧ d.ListsTypes := by
  have hentities : ["Order", "Status"].Nodup := by decide
  have henums : ["Status"].Nodup := by decide
  obtain ⟨-, -, d, hd, -, hrefers, hlists, -⟩ := elements_refer
    ⟨"Shop", [⟨"Order", ["id"], [⟨"id", "string"⟩]⟩, ⟨"Status", [], []⟩], [], [⟨"Status", [.bare "Open"]⟩], [], []⟩
    hentities henums
  exact ⟨hentities, henums, d, hd, hrefers 0 _ rfl, hrefers 1 _ rfl, hlists⟩

end ServiceModel

end TypeScribe

import TypeScribe.Proofs.Signatures

/-!
# What is missing in the declarations of a service

Of the declarations of a service only three kinds hold texts of the model by themselves: the interface with the
names of its entity types, the enums, and the interfaces of the entity types. What the others require is put
together with marks around it, so that it is never blank, whatever the model is. A check of the declarations in
order comes to the names of the entity types first, then to the enum types, and then to the properties of the
entity types.

* `ServiceModel.consts_complete`, `ServiceModel.client_complete`: the declarations that lack nothing.
* `ServiceModel.validate_elements`: when the declarations of a service lack something, and where.
-/

namespace TypeScribe

namespace EntityType

/-- An entity type that has a name. -/
def IsNamed (t : EntityType) : Prop := trimmed t.name ≠ ""

/-- An entity type of which every property has a name and a type. -/
def IsTyped (t : EntityType) : Prop := ∀ p ∈ t.properties, trimmed p.name ≠ "" ∧ trimmed p.type ≠ ""

end EntityType

/-- A member of an enum that has a name, and a value that is not blank if there is one. -/
def EnumMember.IsWhole : EnumMember → Prop
  | .bare name => trimmed name ≠ ""
  | .valued name value => trimmed name ≠ "" ∧ trimmed value ≠ ""

/-- An enum type that has a name and whose members are whole. -/
def EnumType.IsWhole (e : EnumType) : Prop := trimmed e.name ≠ "" ∧ ∀ m ∈ e.members, m.IsWhole

/-- A check of elements in order fails in the element with a number: with the error that this element has at its
place, and with a path that leads on from there. The elements before it have no error. -/
def FailsAt (list : String) (es : List Element) (index : Nat) (err : RenderError) : Prop :=
  validateFrom list 0 es = .error err ∧ (∀ e ∈ es.take index, ∀ place, e.validate place = .ok ()) ∧
    (∃ e ∈ es[index]?, e.validate (itemPlace list index) = .error err) ∧
      ∃ way, err.path = itemPlace list index ++ way

/-! ## Parts of a service -/

theorem require_eq_none_iff_trimmed {kind : Kind} {field text : String} :
    require kind field text = none ↔ trimmed text ≠ "" := by
  rw [require_eq_none_iff, Ne, trimmed_eq_empty_iff, Bool.not_eq_true]

/-- A text with ink in a part of it is there. -/
theorem require_append_left {kind : Kind} {field s : String} (t : String) (h : isBlank s = false) :
    require kind field (s ++ t) = none := by
  rw [require_eq_none_iff, isBlank_append, h, Bool.false_and]

theorem require_append_right {kind : Kind} {field t : String} (s : String) (h : isBlank t = false) :
    require kind field (s ++ t) = none := by
  rw [require_eq_none_iff, isBlank_append, h, Bool.and_false]

theorem EnumMember.missing?_eq_none_iff (m : EnumMember) : m.missing? = none ↔ m.IsWhole := by
  cases m with
  | bare name => exact require_eq_none_iff_trimmed
  | valued name value =>
    rw [missing?, Option.or_eq_none_iff, require_eq_none_iff_trimmed, require_eq_none_iff_trimmed, IsWhole]

namespace ServiceModel

variable {m : ServiceModel}

/-- The enum of an enum type lacks nothing exactly when the enum type is whole. -/
theorem enumElement_missing? (e : EnumType) : (enumElement e).missing? = none ↔ e.IsWhole := by
  show Enumeration.missing? _ = none ↔ _
  rw [Enumeration.missing?, Option.or_eq_none_iff, require_eq_none_iff_trimmed, firstMissing_items_eq_none_iff]
  simp only [EnumMember.missing?_eq_none_iff, EnumType.IsWhole]

/-- The interface of an entity type lacks nothing exactly when the entity type is named and typed. -/
theorem entityElement_missing? (t : EntityType) :
    (entityElement t).missing? = none ↔ t.IsNamed ∧ t.IsTyped := by
  show Interface.missing? _ = none ↔ _
  rw [Interface.missing?, Option.or_eq_none_iff, require_eq_none_iff_trimmed, Fields.missing?_eq_none_iff]
  simp only [EntityType.IsNamed, EntityType.IsTyped, Ne, trimmed_eq_empty_iff, Bool.not_eq_true]

/-! ## Declarations that lack nothing -/

theorem entityEntry_complete (t : EntityType) : (entityEntry t).value.missing? .constDecl = none := by
  have htuple : ∀ key names, (ObjectEntry.mk key (.raw (constTuple names))).value.missing? .constDecl = none := by
    intro key names
    rw [Value.missing?, constTuple, String.append_assoc]
    exact require_append_left _ (by decide)
  rw [entityEntry, Value.missing?]
  refine ObjectLiteral.missing?_eq_none_iff.mpr ?_
  rw [List.forall_mem_cons, List.forall_mem_singleton]
  exact ⟨htuple _ _, htuple _ _⟩

/-- The constant with the names lacks nothing, whatever the names are. -/
theorem consts_complete (m : ServiceModel) : m.consts.missing? = none := by
  have hentries : ∀ e ∈ m.entityTypes.map entityEntry, e.value.missing? .constDecl = none :=
    List.forall_mem_map.mpr fun t _ => entityEntry_complete t
  have hname : require .constDecl "name" m.constsName = none := require_append_right _ (by decide)
  show Constant.missing? _ = none
  rw [Constant.missing?, hname, Option.none_or]
  exact Option.map_eq_none_iff.mpr (ObjectLiteral.missing?_eq_none_iff.mpr hentries)

/-- The method that hands out the client lacks nothing if the client has a name. -/
theorem instanceMethod_complete {client : String} (h : isBlank client = false) :
    (instanceMethod client).head.missing? = none ∧
      Statement.missing? "body" 0 (instanceMethod client).body = none := by
  have hname : require .method "name" "getInstance" = none := require_eq_none_iff.mpr (by decide)
  have hresult : require .method "returnType" client = none := require_eq_none_iff.mpr h
  have hmethod : (instanceMethod client).head.isConstructor = false :=
    beq_eq_false_iff_ne.mpr (show "getInstance" ≠ "constructor" by decide)
  have hcondition : require .ifElse "condition" ("!" ++ client ++ ".instance") = none :=
    require_append_right _ (by decide)
  constructor
  · rw [MethodHead.missing?, hmethod, if_neg Bool.false_ne_true, Option.or_eq_none_iff]
    exact ⟨hname, hresult⟩
  · rw [Statement.missing?_eq_none_iff, instanceMethod, elementsOf_element, elementsOf_raw, List.forall_mem_cons,
      Element.missing?, hcondition, Option.none_or, Statement.missing?_eq_none_iff]
    exact ⟨fun _ hx => absurd hx List.not_mem_nil, fun _ hx => absurd hx List.not_mem_nil⟩

/-- The client lacks nothing, whatever the name of the service is. -/
theorem client_complete (m : ServiceModel) : m.client.missing? = none := by
  have hclient : isBlank m.clientName = false := by
    rw [clientName, isBlank_append, show isBlank "Client" = false by decide, Bool.and_false]
  have hword : ∀ {word : String}, isBlank word = false → require .property "name" word = none :=
    require_eq_none_iff.mpr
  have hinstance : ClassProperty.missing?
      { name := "instance?", visibility := some .priv, isStatic := true, type := some m.clientName } = none := by
    rw [ClassProperty.missing?, hword (show isBlank "instance?" = false by decide), Option.none_or]
    exact Option.or_eq_none_iff.mpr ⟨require_eq_none_iff.mpr hclient, rfl⟩
  have hservice : ClassProperty.missing?
      { name := "serviceName", isStatic := true, isReadonly := true, value := some (quoted m.name) } = none := by
    rw [ClassProperty.missing?, hword (show isBlank "serviceName" = false by decide), Option.none_or]
    exact Option.or_eq_none_iff.mpr ⟨rfl, require_append_right _ (by decide)⟩
  have hconstructor : Method.constructor.head.missing? = none ∧
      Statement.missing? "body" 0 Method.constructor.body = none := ⟨rfl, rfl⟩
  rw [client, Element.missing?, Option.or_eq_none_iff, ClassHead.missing?]
  simp only [Option.or_eq_none_iff, firstMissing_items_eq_none_iff, Method.missing?_eq_none_iff]
  refine ⟨⟨require_eq_none_iff.mpr hclient, rfl, fun _ h => absurd h List.not_mem_nil, ?_⟩, ?_⟩
  · exact List.forall_mem_cons.mpr ⟨hinstance, List.forall_mem_singleton.mpr hservice⟩
  · exact List.forall_mem_cons.mpr
      ⟨hconstructor, List.forall_mem_singleton.mpr (instanceMethod_complete hclient)⟩

/-! ## Names of entity types -/

/-- The field of an entity type in the interface of names. -/
def keysField (m : ServiceModel) (t : EntityType) : Field :=
  ⟨t.name, inlineType [⟨"fields", m.nameUnion t "fields"⟩, ⟨"keys", m.nameUnion t "keys"⟩]⟩

/-- The interface of names lacks what its fields lack. -/
theorem entityKeys_missing? (m : ServiceModel) : m.entityKeys.missing? =
    Fields.missing? .interfaceDecl "properties" (m.entityTypes.map m.keysField) := by
  have hname : require .interfaceDecl "name" (m.name ++ "EntityKeys") = none := require_append_right _ (by decide)
  show Interface.missing? _ = _
  rw [Interface.missing?, hname, Option.none_or]
  rfl

theorem keysField_whole (m : ServiceModel) (t : EntityType) :
    (isBlank (m.keysField t).name = false ∧ isBlank (m.keysField t).type = false) ↔ t.IsNamed := by
  rw [keysField, EntityType.IsNamed, Ne, trimmed_eq_empty_iff, Bool.not_eq_true]
  exact and_iff_left (inlineType_not_blank _)

/-- The interface of names lacks nothing exactly when all entity types have names. -/
theorem entityKeys_missing?_eq_none_iff (m : ServiceModel) :
    m.entityKeys.missing? = none ↔ ∀ t ∈ m.entityTypes, t.IsNamed := by
  rw [entityKeys_missing?, Fields.missing?_eq_none_iff, List.forall_mem_map]
  exact forall₂_congr fun t _ => (m.keysField_whole t)

/-- The first entity type without a name is told by its number. -/
theorem entityKeys_missing?_of_first {before after : List EntityType} {t : EntityType}
    (hm : m.entityTypes = before ++ t :: after) (hbefore : ∀ q ∈ before, q.IsNamed) (ht : ¬ t.IsNamed) :
    m.entityKeys.missing? = some ⟨.interfaceDecl, "properties", [.item "properties" before.length]⟩ := by
  have hblank : isBlank t.name = true := by rwa [EntityType.IsNamed, not_not, trimmed_eq_empty_iff] at ht
  have hnamed : ∀ f ∈ before.map m.keysField, ∀ i, f.missing? .interfaceDecl "properties" i = none :=
    List.forall_mem_map.mpr fun q hq _ => Field.missing?_eq_none_iff.mpr ((m.keysField_whole q).mpr (hbefore q hq))
  rw [entityKeys_missing?, hm, List.map_append, List.map_cons, Fields.missing?]
  refine firstMissing_of_first hnamed ?_ _
  rw [Field.missing?, require, keysField, hblank, List.length_map, Nat.zero_add]
  rfl

/-! ## Results -/

/-- The first element that lacks something is the one that a check fails in. -/
theorem failsAt_of_first {before : List Element} {e : Element} {d : MissingField}
    (hbefore : ∀ b ∈ before, b.missing? = none) (he : e.missing? = some d) (list : String) (after : List Element) :
    FailsAt list (before ++ e :: after) before.length (d.at (itemPlace list before.length)) := by
  refine ⟨?_, ?_, ⟨e, ?_, ?_⟩, pathText d.steps, rfl⟩
  · rw [validateFrom_eq, firstDefect_of_first hbefore he]
  · rw [List.take_left]
    exact fun b hb place => Element.validate_eq_ok_iff.mpr (hbefore b hb)
  · exact getElem?_length_append_cons before after e
  · rw [Element.validate, he]

/-- The declarations of a service lack nothing exactly when its entity types and enum types are whole. -/
theorem elements_complete_iff (m : ServiceModel) : (∀ e ∈ m.elements, e.missing? = none) ↔
    (∀ t ∈ m.entityTypes, t.IsNamed ∧ t.IsTyped) ∧ ∀ e ∈ m.enumTypes, e.IsWhole := by
  have hfirst : (∀ e ∈ [m.consts, m.entityKeys], e.missing? = none) ↔ ∀ t ∈ m.entityTypes, t.IsNamed := by
    rw [List.forall_mem_cons, List.forall_mem_singleton, entityKeys_missing?_eq_none_iff]
    exact and_iff_right m.consts_complete
  have hlast : ∀ e ∈ [m.description, m.client], e.missing? = none :=
    List.forall_mem_cons.mpr ⟨m.description_complete, List.forall_mem_singleton.mpr m.client_complete⟩
  simp only [elements, List.forall_mem_append, List.forall_mem_map, hfirst, enumElement_missing?,
    entityElement_missing?]
  constructor
  · rintro ⟨⟨⟨-, henums⟩, hentities⟩, -⟩
    exact ⟨hentities, henums⟩
  · rintro ⟨hentities, henums⟩
    exact ⟨⟨⟨fun t ht => (hentities t ht).1, henums⟩, hentities⟩, hlast⟩

/-- The declarations in front of the enums lack nothing if all entity types have names. -/
theorem first_complete (h : ∀ t ∈ m.entityTypes, t.IsNamed) :
    ∀ e ∈ [m.consts, m.entityKeys], e.missing? = none :=
  List.forall_mem_cons.mpr
    ⟨m.consts_complete, List.forall_mem_singleton.mpr (m.entityKeys_missing?_eq_none_iff.mpr h)⟩

/-- Of the declarations of a service, checked in order, none lacks anything exactly when all entity types and enum
types of the service are whole. Otherwise the check fails in the interface of names, at the number of the first entity
type without a name; or if all have names, in the enum of the first enum type that is not whole; or if all are
whole, in the interface of the first entity type that has a property without a name or type. -/
theorem validate_elements (m : ServiceModel) (list : String) :
    ((∀ e ∈ m.elements, ∀ place, e.validate place = .ok ()) ↔
      (∀ t ∈ m.entityTypes, t.IsNamed ∧ t.IsTyped) ∧ ∀ e ∈ m.enumTypes, e.IsWhole) ∧
    (∀ before t after, m.entityTypes = before ++ t :: after → (∀ q ∈ before, q.IsNamed) → ¬ t.IsNamed →
      FailsAt list m.elements 1
        ⟨.interfaceDecl, "properties", itemPlace (itemPlace list 1 ++ ".properties") before.length⟩) ∧
    ((∀ t ∈ m.entityTypes, t.IsNamed) →
      (∀ before e after, m.enumTypes = before ++ e :: after → (∀ q ∈ before, q.IsWhole) → ¬ e.IsWhole →
        ∃ err, FailsAt list m.elements (2 + before.length) err) ∧
      ((∀ e ∈ m.enumTypes, e.IsWhole) →
        ∀ before t after, m.entityTypes = before ++ t :: after → (∀ q ∈ before, q.IsTyped) → ¬ t.IsTyped →
          ∃ err, FailsAt list m.elements (2 + m.enumTypes.length + before.length) err)) := by
  refine ⟨?_, fun before t after hm hbefore ht => ?_, fun hnamed => ⟨fun before e after hm hbefore he => ?_,
    fun hwhole before t after hm hbefore ht => ?_⟩⟩
  · simp only [Element.validate_eq_ok_iff, forall_const]
    exact m.elements_complete_iff
  · have hplace : itemPlace list 1 ++ pathText [.item "properties" before.length] =
        itemPlace (itemPlace list 1 ++ ".properties") before.length := by
      rw [pathText, List.map_singleton, String.join_cons, String.join_nil, String.append_empty, place_item,
        String.append_assoc]
      rfl
    rw [← hplace]
    exact failsAt_of_first (List.forall_mem_singleton.mpr m.consts_complete)
      (entityKeys_missing?_of_first hm hbefore ht) list _
  · obtain ⟨d, hd⟩ := Option.ne_none_iff_exists'.mp fun h => he ((enumElement_missing? e).mp h)
    have hfirst : ∀ b ∈ [m.consts, m.entityKeys] ++ before.map enumElement, b.missing? = none :=
      List.forall_mem_append.mpr ⟨first_complete hnamed,
        List.forall_mem_map.mpr fun q hq => (enumElement_missing? q).mpr (hbefore q hq)⟩
    have helements : m.elements = [m.consts, m.entityKeys] ++ before.map enumElement ++ enumElement e ::
        (after.map enumElement ++ m.entityTypes.map entityElement ++ [m.description, m.client]) := by
      simp only [elements, hm, List.map_append, List.map_cons, List.append_assoc, List.cons_append]
    have hindex : ([m.consts, m.entityKeys] ++ before.map enumElement).length = 2 + before.length := by
      rw [List.length_append, List.length_map]; rfl
    rw [helements, ← hindex]
    exact ⟨_, failsAt_of_first hfirst hd list _⟩
  · have hlacking : (entityElement t).missing? ≠ none := fun h => ht ((entityElement_missing? t).mp h).2
    obtain ⟨d, hd⟩ := Option.ne_none_iff_exists'.mp hlacking
    have hq : ∀ q ∈ before, (entityElement q).missing? = none := fun q hq =>
      (entityElement_missing? q).mpr ⟨hnamed q (hm ▸ List.mem_append_left _ hq), hbefore q hq⟩
    have hfirst : ∀ b ∈ [m.consts, m.entityKeys] ++ m.enumTypes.map enumElement ++ before.map entityElement,
        b.missing? = none :=
      List.forall_mem_append.mpr ⟨List.forall_mem_append.mpr ⟨first_complete hnamed,
        List.forall_mem_map.mpr fun e he => (enumElement_missing? e).mpr (hwhole e he)⟩,
        List.forall_mem_map.mpr hq⟩
    have helements : m.elements = [m.consts, m.entityKeys] ++ m.enumTypes.map enumElement ++
        before.map entityElement ++ entityElement t :: (after.map entityElement ++ [m.description, m.client]) := by
      simp only [elements, hm, List.map_append, List.map_cons, List.append_assoc, List.cons_append]
    have hindex : ([m.consts, m.entityKeys] ++ m.enumTypes.map enumElement ++ before.map entityElement).length =
        2 + m.enumTypes.length + before.length := by
      rw [List.length_append, List.length_append, List.length_map, List.length_map]; rfl
    rw [helements, ← hindex]
    exact ⟨_, failsAt_of_first hfirst hd list _⟩

/-- A second entity type without a name, an enum type with a blank value, and a property without a type. -/
theorem validate_elements_blank_parts :
    FailsAt "elements" (ServiceModel.mk " " [⟨"A", [], []⟩, ⟨"\u00a0", [], []⟩] [] [⟨"", []⟩] [] []).elements 1
        ⟨.interfaceDecl, "properties", "elements[1].properties[1]"⟩ ∧
      (∃ err, FailsAt "service.elements"
        (ServiceModel.mk "" [⟨"A", [], [⟨"x", " "⟩]⟩] [] [⟨"E", []⟩, ⟨"F", [.valued "a" ""]⟩] [] []).elements 3 err) ∧
      ∃ err, FailsAt "service.elements"
        (ServiceModel.mk "" [⟨"A", [], [⟨"x", " "⟩]⟩] [] [⟨"E", [.bare "a"]⟩] [] []).elements 3 err := by
  have hnamed : EntityType.IsNamed ⟨"A", [], []⟩ := show trimmed "A" ≠ "" by decide
  have hnameless : ¬ EntityType.IsNamed ⟨"\u00a0", [], []⟩ := fun h => h (by decide)
  have hall : ∀ t ∈ [EntityType.mk "A" [] [⟨"x", " "⟩]], t.IsNamed := List.forall_mem_singleton.mpr hnamed
  have huntyped : ¬ EntityType.IsTyped ⟨"A", [], [⟨"x", " "⟩]⟩ :=
    fun h => (h _ (List.mem_singleton_self _)).2 (by decide)
  have hempty : EnumType.IsWhole ⟨"E", []⟩ := ⟨show trimmed "E" ≠ "" by decide, fun _ h => absurd h List.not_mem_nil⟩
  have hbare : EnumType.IsWhole ⟨"E", [.bare "a"]⟩ :=
    ⟨show trimmed "E" ≠ "" by decide, List.forall_mem_singleton.mpr (show trimmed "a" ≠ "" by decide)⟩
  have hvalued : ¬ EnumType.IsWhole ⟨"F", [.valued "a" ""]⟩ :=
    fun h => (h.2 _ (List.mem_singleton_self _)).2 (by decide)
  refine ⟨?_, ?_, ?_⟩
  · exact (validate_elements _ "elements").2.1 [_] _ [] rfl (List.forall_mem_singleton.mpr hnamed) hnameless
  · exact ((validate_elements _ "service.elements").2.2 hall).1 [_] _ [] rfl (List.forall_mem_singleton.mpr hempty)
      hvalued
  · exact ((validate_elements _ "service.elements").2.2 hall).2 (List.forall_mem_singleton.mpr hbare) [] _ [] rfl
      (fun _ h => absurd h List.not_mem_nil) huntyped

end ServiceModel

end TypeScribe

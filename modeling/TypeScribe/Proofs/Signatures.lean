import TypeScribe.Proofs.Complete
import TypeScribe.Proofs.Formats

/-!
# What a service says of its operations

The interface that describes a service has one member for its actions and one for its functions, and in it every
operation as `name: (p1: t1, ...) => result`, all in one text. That text is never blank, so no check of the elements
of a service looks at the parts of an operation: a document is judged the same whatever its operations are, and what
is blank in an operation is blank in what is written of it.

* `ServiceModel.description_complete`: the interface that describes a service lacks nothing.
* `Document.judge_withOperations`: operations are not judged.
* `Document.parse_signatures`: what a document that was parsed holds of its operations.
-/

namespace TypeScribe

/-- What is written of an operation, in its parts. -/
structure OperationMember where
  name : String
  parameters : Fields
  result : String
deriving DecidableEq, Repr

namespace OperationMember

/-- The name, the parameters with their types, and the result after an arrow. -/
def text (m : OperationMember) : String :=
  m.name ++ ": (" ++ ", ".intercalate (m.parameters.map fun p => p.name ++ ": " ++ p.type) ++ ") => " ++ m.result

/-- No part of a member is blank. -/
def IsWhole (m : OperationMember) : Prop :=
  trimmed m.name ≠ "" ∧ (∀ p ∈ m.parameters, trimmed p.name ≠ "" ∧ trimmed p.type ≠ "") ∧ trimmed m.result ≠ ""

end OperationMember

namespace Operation

/-- The member for an operation, which returns `void` where no result is given. -/
def member (o : Operation) : OperationMember := ⟨o.name, o.parameters, o.returnType.getD "void"⟩

/-- No text that is given of an operation is blank. -/
def IsComplete (o : Operation) : Prop :=
  trimmed o.name ≠ "" ∧ (∀ p ∈ o.parameters, trimmed p.name ≠ "" ∧ trimmed p.type ≠ "") ∧
    ∀ result ∈ o.returnType, trimmed result ≠ ""

end Operation

/-- Members between braces on one line. -/
def memberList (texts : List String) : String :=
  if texts = [] then "\x7b\x7d" else "\x7b " ++ "; ".intercalate texts ++ " \x7d"

/-- The same document with other operations of its service. -/
def Document.withOperations (d : Document) (actions functions : List Operation) : Document :=
  { d with service := d.service.map fun m => { m with actions, functions } }

/-! ## Members -/

/-- A member has a hole exactly where a text that is given of the operation is blank. -/
theorem Operation.member_isWhole_iff (o : Operation) : o.member.IsWhole ↔ o.IsComplete := by
  refine and_congr_right fun _ => and_congr_right fun _ => ?_
  have hvoid : trimmed "void" ≠ "" := by decide
  cases ho : o.returnType with
  | none => simpa [member, ho] using hvoid
  | some result => simp [member, ho]

theorem Operation.field_text (o : Operation) : Field.text ⟨o.name, o.type⟩ = o.member.text := by
  have hopen : ": (" = ": " ++ "(" := by decide
  have hfield : Field.text = fun p : Field => p.name ++ ": " ++ p.type := rfl
  rw [OperationMember.text, hopen]
  simp only [hfield, type, member, Fields.params, String.append_assoc]

/-- An object type on one line lists its members. -/
theorem inlineType_eq (members : Fields) : inlineType members = memberList (members.map Field.text) := by
  have hopen : "\x7b " = openBrace ++ " " := by decide
  have hclose : " \x7d" = " " ++ closeBrace := by decide
  rw [inlineType, memberList, hopen, hclose]
  cases members with
  | nil => decide
  | cons f rest =>
    rw [if_neg (by simp), if_neg (by simp)]
    simp only [String.append_assoc]

theorem ServiceModel.signatures_eq (ops : List Operation) :
    signatures ops = memberList (ops.map fun o => o.member.text) := by
  rw [signatures, inlineType_eq, List.map_map]
  exact congrArg memberList (List.map_congr_left fun o _ => o.field_text)

/-- The interface that describes a service has a member for its actions and one for its functions. -/
theorem ServiceModel.description_signatures (m : ServiceModel) :
    ∃ i : Interface, m.description = .interfaceDecl i ∧ i.name = m.name ++ "Service" ∧
      ⟨"actions", memberList (m.actions.map fun o => o.member.text)⟩ ∈ i.properties ∧
      ⟨"functions", memberList (m.functions.map fun o => o.member.text)⟩ ∈ i.properties := by
  rw [← signatures_eq, ← signatures_eq]
  exact ⟨_, rfl, rfl, by simp, by simp⟩

/-! ## Checks -/

theorem inlineType_not_blank (members : Fields) : isBlank (inlineType members) = false := by
  have hbrace : isBlank openBrace = false := by decide
  unfold inlineType
  split
  · rw [isBlank_append, hbrace, Bool.false_and]
  · simp only [isBlank_append, hbrace, Bool.false_and]

/-- The interface that describes a service lacks nothing, whatever the service is. -/
theorem ServiceModel.description_complete (m : ServiceModel) : m.description.missing? = none := by
  have hname : isBlank (m.name ++ "Service") = false := by
    rw [isBlank_append, show isBlank "Service" = false by decide, Bool.and_false]
  have hfield : ∀ (name : String) (members : Fields), isBlank name = false →
      isBlank (Field.mk name (inlineType members)).name = false ∧
        isBlank (Field.mk name (inlineType members)).type = false :=
    fun name members h => ⟨h, inlineType_not_blank members⟩
  show Interface.missing? _ = none
  rw [Interface.missing?, require_eq_none_iff.mpr hname, Option.none_or]
  refine Fields.missing?_eq_none_iff.mpr ?_
  simp only [List.forall_mem_cons]
  exact ⟨hfield _ _ (by decide), hfield _ _ (by decide), hfield _ _ (by decide), hfield _ _ (by decide),
    hfield _ _ (by decide), fun _ h => absurd h List.not_mem_nil⟩

/-- Of the elements of a service only one has something of its operations. -/
theorem ServiceModel.mem_elements_iff {m : ServiceModel} {e : Element} :
    e ∈ m.elements ↔ e ∈ [m.consts, m.entityKeys, m.client] ++ m.enumTypes.map enumElement ++
      m.entityTypes.map entityElement ∨ e = m.description := by
  simp only [elements, List.mem_append, List.mem_cons, List.not_mem_nil, or_false]
  tauto

theorem Element.validate_eq_ok_iff {e : Element} {place : String} : e.validate place = .ok () ↔ e.missing? = none := by
  rw [validate]
  cases e.missing? <;> simp

namespace Document

/-- A document is found good exactly when its settings and the name of its service are fit and no element of it lacks
anything. -/
theorem judge_eq_ok_iff {d : Document} :
    d.judge = .ok () ↔ d.HasFitIndent ∧ d.HasFitName ∧ ∀ e ∈ d.allElements, e.missing? = none := by
  have hverdict : d.judge = .ok () ↔ d.objections = [] := by
    rw [judge_eq]
    cases d.objections <;> simp [verdict]
  have hall : ∀ {list : String} {es : List Element},
      (∀ (i : Nat) (e : Element), es[i]? = some e → e.validate (itemPlace list i) = .ok ()) ↔
        ∀ e ∈ es, e.missing? = none := by
    intro list es
    simp only [Element.validate_eq_ok_iff, List.mem_iff_getElem?]
    exact ⟨fun h e he => he.elim fun i hi => h i e hi, fun h i e hi => h e ⟨i, hi⟩⟩
  rw [hverdict, objections_eq_nil_iff, hall, hall, allElements, List.forall_mem_append]

/-- Operations are not judged. -/
theorem judge_withOperations {d : Document} (h : d.judge = .ok ()) (actions functions : List Operation) :
    (d.withOperations actions functions).judge = .ok () := by
  obtain ⟨hindent, hname, hall⟩ := judge_eq_ok_iff.mp h
  rw [allElements, List.forall_mem_append] at hall
  refine judge_eq_ok_iff.mpr ⟨hindent, ?_, List.forall_mem_append.mpr ⟨?_, hall.2⟩⟩
  · intro m hm
    obtain ⟨m', hm', rfl⟩ := Option.map_eq_some_iff.mp hm
    exact hname m' hm'
  · cases hs : d.service with
    | none => simp [serviceElements, withOperations, hs]
    | some m =>
      have hservice : ∀ e ∈ m.elements, e.missing? = none := by simpa [serviceElements, hs] using hall.1
      intro e he
      have he' : e ∈ ({ m with actions, functions } : ServiceModel).elements := by
        simpa [serviceElements, withOperations, hs] using he
      -- All other elements are the same as before, so they lack nothing.
      rcases ServiceModel.mem_elements_iff.mp he' with hother | rfl
      · exact hservice e (ServiceModel.mem_elements_iff.mpr (.inl hother))
      · exact ServiceModel.description_complete _

/-- In a document that was parsed, every operation of the service is written as a member of the interface that
describes the service. The member has a hole exactly where a text that is given of the operation is blank, and this
may be so: a text that says the same document with any other operations is parsed too. -/
theorem parse_signatures {source : Source} {format : Format} {d : Document} {m : ServiceModel}
    (h : parse source format = .ok d) (hm : d.service = some m) :
    (∃ i : Interface, i.name = m.name ++ "Service" ∧
      d.allElements[2 + m.enumTypes.length + m.entityTypes.length]? = some (.interfaceDecl i) ∧
      ⟨"actions", memberList (m.actions.map fun o => o.member.text)⟩ ∈ i.properties ∧
      ⟨"functions", memberList (m.functions.map fun o => o.member.text)⟩ ∈ i.properties) ∧
    (∀ o ∈ m.actions ++ m.functions, o.member.IsWhole ↔ o.IsComplete) ∧
    ∀ (actions functions : List Operation) (other : Source) (format' : Format),
      decode other format' = .ok (d.withOperations actions functions) →
        parse other format' = .ok (d.withOperations actions functions) := by
  refine ⟨?_, fun o _ => o.member_isWhole_iff, fun actions functions other format' hd => ?_⟩
  · obtain ⟨i, hi, hname, hactions, hfunctions⟩ := m.description_signatures
    refine ⟨i, hname, ?_, hactions, hfunctions⟩
    have hd : d.allElements = m.elements ++ d.elements := by rw [allElements, serviceElements, hm]
    have hlength : ([m.consts, m.entityKeys] ++ m.enumTypes.map ServiceModel.enumElement ++
        m.entityTypes.map ServiceModel.entityElement).length = 2 + m.enumTypes.length + m.entityTypes.length := by
      simp only [List.length_append, List.length_map, List.length_cons, List.length_nil]
    rw [hd, ServiceModel.elements, List.append_assoc, ← hlength, hi, List.getElem?_append_right le_rfl, Nat.sub_self]
    rfl
  · exact (parse_eq other format' _).mpr ⟨hd, judge_withOperations ((parse_eq source format d).mp h).2 _ _⟩

/-- An action whose result is given as the empty text is parsed, and is written as `a: () => ` with nothing after the
arrow. -/
theorem parse_signatures_empty_result :
    let json := "\x7b\"service\":\x7b\"name\":\"S\",\"actions\":[\x7b\"name\":\"a\",\"returnType\":\"\"\x7d]\x7d\x7d"
    let a : Operation := { name := "a", returnType := some "" }
    let d := Document.mk {} (some { name := "S", actions := [a] }) []
    parse ⟨"a.json", json⟩ .json = .ok d ∧ ¬ a.member.IsWhole ∧
      ∃ i : Interface, d.allElements[2]? = some (.interfaceDecl i) ∧
        ⟨"actions", "\x7b a: () =>  \x7d"⟩ ∈ i.properties := by
  intro json a d
  let source : Source := ⟨"a.json", "\x7b\"service\":\x7b\"name\":\"S\"\x7d\x7d"⟩
  let source' : Source := ⟨"a.json", json⟩
  have hreads : Format.json.Reads source.text (.table ⟨0, 24⟩
      [⟨⟨"service", ⟨1, 10⟩⟩, .table ⟨11, 23⟩ [⟨⟨"name", ⟨12, 18⟩⟩, .text ⟨19, 22⟩ "S"⟩] true⟩] true) := by
    decide +kernel
  have hempty : parse source .json = .ok (Document.mk {} (some { name := "S" }) []) :=
    (parse_eq _ _ _).mpr ⟨decode_of_reads hreads (by rfl), by rfl⟩
  have hreads' : Format.json.Reads source'.text (.table ⟨0, 65⟩ [⟨⟨"service", ⟨1, 10⟩⟩, .table ⟨11, 64⟩
      [⟨⟨"name", ⟨12, 18⟩⟩, .text ⟨19, 22⟩ "S"⟩, ⟨⟨"actions", ⟨23, 32⟩⟩, .array ⟨33, 63⟩ [.table ⟨34, 62⟩
        [⟨⟨"name", ⟨35, 41⟩⟩, .text ⟨42, 45⟩ "a"⟩, ⟨⟨"returnType", ⟨46, 58⟩⟩, .text ⟨59, 61⟩ ""⟩] true] true⟩]
      true⟩] true) := by decide +kernel
  have hdecode : decode source' .json =
      .ok ⟨{}, some { name := "S", actions := [{ name := "a", returnType := some "" }] }, []⟩ :=
    decode_of_reads hreads' (by rfl)
  have hparse : parse source' .json = .ok d := (parse_signatures hempty rfl).2.2 [a] [] _ _ hdecode
  obtain ⟨⟨i, -, hi, hactions, -⟩, hholes, -⟩ := parse_signatures hparse rfl
  have hhole : ¬ a.IsComplete := fun h => h.2.2 "" rfl (by decide)
  exact ⟨hparse, (hholes a (List.mem_singleton_self a)).not.mpr hhole, i, hi, hactions⟩

end Document

end TypeScribe

import TypeScribe.Element.Basic

/-!
# Texts and elements in a tree

The elements of a tree at any depth, and the texts of each of them by the way in which they are laid out: within
a line, as lines by themselves, or with their later lines after each other.

* `Element.bodies_induction`: what holds of an element whenever it holds of the elements in its bodies holds of
  every element.
* `Element.inner_eq`: the elements below an element are those in its bodies and the ones below these.
* `texts`: the texts of all elements of a list, at any depth.
-/

namespace TypeScribe

/-! ## Elements at any depth -/

/-- The element that a statement is, if it is one. -/
def Statement.element? : Statement → Option Element
  | .raw _ => none
  | .element e => some e

/-- The elements that stand in a body by themselves. -/
def elementsOf (body : List Statement) : List Element := body.filterMap Statement.element?

/-- The bodies of an element: of a function, of each method, of each branch, of a loop. -/
def Element.bodies : Element → List (List Statement)
  | .constDecl _ | .typeDecl _ | .interfaceDecl _ | .enumDecl _ => []
  | .functionDecl _ body | .arrowFunction _ body | .forLoop _ body | .forOfLoop _ body => [body]
  | .classDecl _ methods => methods.map Method.body
  | .ifElse _ body otherwise => body :: otherwise.toList

/-- The elements that stand in the bodies of an element. -/
def Element.children (e : Element) : List Element := e.bodies.flatMap elementsOf

mutual

/-- The elements in the bodies of an element, at any depth. -/
def Element.inner : Element → List Element
  | .constDecl _ => []
  | .typeDecl _ => []
  | .interfaceDecl _ => []
  | .functionDecl _ body => Statement.inner body
  | .arrowFunction _ body => Statement.inner body
  | .classDecl _ methods => Method.inner methods
  | .enumDecl _ => []
  | .ifElse _ body none => Statement.inner body
  | .ifElse _ body (some otherwise) => Statement.inner body ++ Statement.inner otherwise
  | .forLoop _ body => Statement.inner body
  | .forOfLoop _ body => Statement.inner body

/-- The elements in a body, at any depth. -/
def Statement.inner : List Statement → List Element
  | [] => []
  | .raw _ :: rest => Statement.inner rest
  | .element e :: rest => e :: (e.inner ++ Statement.inner rest)

/-- The elements in the bodies of methods, at any depth. -/
def Method.inner : List Method → List Element
  | [] => []
  | ⟨_, body⟩ :: rest => Statement.inner body ++ Method.inner rest

end

/-- The elements of a list and those below them, at any depth. -/
def allDepths (es : List Element) : List Element := es.flatMap fun e => e :: e.inner

theorem elementsOf_raw (text : String) (rest : List Statement) :
    elementsOf (.raw text :: rest) = elementsOf rest := by
  exact List.filterMap_cons_none rfl

theorem elementsOf_element (e : Element) (rest : List Statement) :
    elementsOf (.element e :: rest) = e :: elementsOf rest := by
  exact List.filterMap_cons_some rfl

theorem mem_elementsOf {e : Element} {body : List Statement} : e ∈ elementsOf body ↔ .element e ∈ body := by
  rw [elementsOf, List.mem_filterMap]
  constructor
  · rintro ⟨item, hitem, he⟩
    cases item with
    | raw text => cases he
    | element x => exact Option.some.inj he ▸ hitem
  · exact fun h => ⟨_, h, rfl⟩

theorem Element.mem_children {x e : Element} : x ∈ e.children ↔ ∃ body ∈ e.bodies, x ∈ elementsOf body :=
  List.mem_flatMap

theorem allDepths_cons (e : Element) (es : List Element) :
    allDepths (e :: es) = e :: e.inner ++ allDepths es := by
  rw [allDepths, List.flatMap_cons]; rfl

theorem allDepths_append (a b : List Element) : allDepths (a ++ b) = allDepths a ++ allDepths b := by
  rw [allDepths, List.flatMap_append]; rfl

theorem Statement.inner_eq (body : List Statement) : Statement.inner body = allDepths (elementsOf body) := by
  induction body with
  | nil => rw [Statement.inner]; rfl
  | cons item rest ih =>
    cases item with
    | raw text => rw [Statement.inner, ih, elementsOf_raw]
    | element e => rw [Statement.inner, ih, elementsOf_element, allDepths_cons]; rfl

theorem Method.inner_eq (methods : List Method) :
    Method.inner methods = allDepths ((methods.map Method.body).flatMap elementsOf) := by
  induction methods with
  | nil => rw [Method.inner]; rfl
  | cons m rest ih =>
    obtain ⟨head, body⟩ := m
    rw [Method.inner, ih, Statement.inner_eq, List.map_cons, List.flatMap_cons, allDepths_append]

/-- The elements below an element are those in its bodies and the ones below these. -/
theorem Element.inner_eq (e : Element) : e.inner = allDepths e.children := by
  have single : ∀ body, Statement.inner body = allDepths ([body].flatMap elementsOf) := by
    intro body
    rw [Statement.inner_eq, List.flatMap_singleton]
  cases e with
  | functionDecl head body => rw [inner, single]; rfl
  | arrowFunction signature body => rw [inner, single]; rfl
  | classDecl head methods => rw [inner, Method.inner_eq]; rfl
  | ifElse condition body otherwise =>
    cases otherwise with
    | none => rw [inner, single]; rfl
    | some otherwise =>
      rw [inner, Statement.inner_eq, Statement.inner_eq, ← allDepths_append]
      show _ = allDepths ([body, otherwise].flatMap elementsOf)
      rw [List.flatMap_cons, List.flatMap_singleton]
  | forLoop clauses body => rw [inner, single]; rfl
  | forOfLoop iteration body => rw [inner, single]; rfl
  | _ => rw [inner]; rfl

/-- What is below an element in a body is below the element with the body. -/
theorem allDepths_subset_of_bodies {e x : Element} {body : List Statement} (hb : body ∈ e.bodies)
    (hx : x ∈ elementsOf body) : allDepths [x] ⊆ allDepths [e] := by
  intro y hy
  rw [allDepths, List.flatMap_singleton] at hy ⊢
  rw [Element.inner_eq e]
  exact List.mem_cons_of_mem _ (List.mem_flatMap.mpr ⟨x, Element.mem_children.mpr ⟨body, hb, hx⟩, hy⟩)

section Induction

variable {P : Element → Prop}

mutual

/-- What holds of an element whenever it holds of the elements in its bodies holds of every element. -/
theorem Element.bodies_induction
    (step : ∀ e : Element, (∀ body ∈ e.bodies, ∀ x ∈ elementsOf body, P x) → P e) : ∀ e : Element, P e
  | .constDecl _ => step _ fun _ h => absurd h List.not_mem_nil
  | .typeDecl _ => step _ fun _ h => absurd h List.not_mem_nil
  | .interfaceDecl _ => step _ fun _ h => absurd h List.not_mem_nil
  | .enumDecl _ => step _ fun _ h => absurd h List.not_mem_nil
  | .functionDecl _ body => step _ (List.forall_mem_singleton.mpr (Statement.bodies_induction step body))
  | .arrowFunction _ body => step _ (List.forall_mem_singleton.mpr (Statement.bodies_induction step body))
  | .classDecl _ methods => step _ (Method.bodies_induction step methods)
  | .ifElse _ body none => step _ (List.forall_mem_singleton.mpr (Statement.bodies_induction step body))
  | .ifElse _ body (some otherwise) => step _ <| List.forall_mem_cons.mpr
      ⟨Statement.bodies_induction step body,
        List.forall_mem_singleton.mpr (Statement.bodies_induction step otherwise)⟩
  | .forLoop _ body => step _ (List.forall_mem_singleton.mpr (Statement.bodies_induction step body))
  | .forOfLoop _ body => step _ (List.forall_mem_singleton.mpr (Statement.bodies_induction step body))

/-- It holds of the elements of a body. -/
theorem Statement.bodies_induction
    (step : ∀ e : Element, (∀ body ∈ e.bodies, ∀ x ∈ elementsOf body, P x) → P e) :
    ∀ body : List Statement, ∀ x ∈ elementsOf body, P x
  | [] => fun _ h => absurd h List.not_mem_nil
  | .raw text :: rest => by
    rw [elementsOf_raw]
    exact Statement.bodies_induction step rest
  | .element e :: rest => by
    rw [elementsOf_element, List.forall_mem_cons]
    exact ⟨Element.bodies_induction step e, Statement.bodies_induction step rest⟩

/-- It holds of the elements in the bodies of methods. -/
theorem Method.bodies_induction
    (step : ∀ e : Element, (∀ body ∈ e.bodies, ∀ x ∈ elementsOf body, P x) → P e) :
    ∀ methods : List Method, ∀ body ∈ methods.map Method.body, ∀ x ∈ elementsOf body, P x
  | [] => fun _ h => absurd h List.not_mem_nil
  | ⟨_, body⟩ :: rest => by
    rw [List.map_cons, List.forall_mem_cons]
    exact ⟨Statement.bodies_induction step body, Method.bodies_induction step rest⟩

end

end Induction

/-! ## Texts -/

/-- A text of an element, by the way in which it is laid out. -/
inductive Part where
  /-- A text within a line: a name, a key, a parameter, a condition, a clause, a type after a name. -/
  | word (text : String)
  /-- A verbatim item of a body, whose lines stand by themselves. -/
  | statement (text : String)
  /-- A verbatim value or type whose last line is followed by a mark. -/
  | value (text : String)
  /-- A verbatim value that ends an object literal: nothing follows its last line. -/
  | lastValue (text : String)
deriving DecidableEq, Repr

namespace Part

/-- The text itself. -/
def text : Part → String
  | .word text | .statement text | .value text | .lastValue text => text

/-- Whether the text stands within a line. -/
def isWord : Part → Bool
  | .word _ => true
  | .statement _ | .value _ | .lastValue _ => false

end Part

/-- The texts of parameters. -/
def Fields.texts (fields : Fields) : List Part := fields.flatMap fun f => [.word f.name, .word f.type]

mutual

/-- The texts of a value of an object literal; the last one of its entries is not followed by a comma. -/
def Value.texts (isLast : Bool) : Value → List Part
  | .raw text => [if isLast then .lastValue text else .value text]
  | .object entries => ObjectLiteral.texts entries

/-- The texts of an object literal. -/
def ObjectLiteral.texts : List ObjectEntry → List Part
  | [] => []
  | [⟨key, value⟩] => .word key :: value.texts true
  | ⟨key, value⟩ :: next :: rest => .word key :: (value.texts false ++ ObjectLiteral.texts (next :: rest))

end

/-- The texts of a constant. -/
def Constant.texts (c : Constant) : List Part :=
  .word c.name ::
    match c.value with
    | .raw text => [.value text]
    | .object entries => ObjectLiteral.texts entries

/-- The texts of a type alias. -/
def TypeAlias.texts (t : TypeAlias) : List Part := [.word t.name, .value t.value]

/-- The texts of an interface. -/
def Interface.texts (i : Interface) : List Part :=
  .word i.name :: i.properties.flatMap fun f => [.word f.name, .value f.type]

/-- The texts of an enum member. -/
def EnumMember.texts : EnumMember → List Part
  | .bare name => [.word name]
  | .valued name value => [.word name, .word value]

/-- The texts of an enum. -/
def Enumeration.texts (e : Enumeration) : List Part := .word e.name :: e.members.flatMap EnumMember.texts

/-- The texts of a class property. -/
def ClassProperty.texts (p : ClassProperty) : List Part :=
  .word p.name :: (p.type.toList.map .word ++ p.value.toList.map .value)

/-- The texts of a signature. -/
def Signature.texts (s : Signature) : List Part := Fields.texts s.args ++ s.returnType.toList.map .word

/-- The texts of a class apart from its methods. -/
def ClassHead.texts (c : ClassHead) : List Part :=
  .word c.name :: (c.parent.toList.map .word ++ c.implements.map .word ++
    c.properties.flatMap ClassProperty.texts)

/-- The texts of a method apart from its body. -/
def MethodHead.texts (m : MethodHead) : List Part := .word m.name :: m.signature.texts

/-- The texts of an element apart from its bodies. -/
def Element.headTexts : Element → List Part
  | .constDecl decl => decl.texts
  | .typeDecl decl => decl.texts
  | .interfaceDecl decl => decl.texts
  | .functionDecl head _ => .word head.name :: head.signature.texts
  | .arrowFunction signature _ => signature.texts
  | .classDecl head methods => head.texts ++ methods.flatMap fun m => m.head.texts
  | .enumDecl decl => decl.texts
  | .ifElse condition _ _ => [.word condition]
  | .forLoop clauses _ => [.word clauses.initializer, .word clauses.condition, .word clauses.incrementor]
  | .forOfLoop iteration _ => [.word iteration.binder, .word iteration.iterable]

/-- The text that a statement is, if it is one. -/
def Statement.text? : Statement → Option Part
  | .raw text => some (.statement text)
  | .element _ => none

/-- The verbatim items that stand in a body by themselves. -/
def statementsOf (body : List Statement) : List Part := body.filterMap Statement.text?

/-- The texts of an element and of the verbatim items in its bodies. -/
def Element.ownTexts (e : Element) : List Part := e.headTexts ++ e.bodies.flatMap statementsOf

/-- The texts of elements, at any depth. -/
def texts (es : List Element) : List Part := (allDepths es).flatMap Element.ownTexts

theorem statementsOf_raw (text : String) (rest : List Statement) :
    statementsOf (.raw text :: rest) = .statement text :: statementsOf rest := by
  exact List.filterMap_cons_some rfl

theorem statementsOf_element (e : Element) (rest : List Statement) :
    statementsOf (.element e :: rest) = statementsOf rest := by
  exact List.filterMap_cons_none rfl

theorem texts_singleton (e : Element) : texts [e] = e.ownTexts ++ texts e.children := by
  rw [texts, allDepths_cons, List.cons_append, List.flatMap_cons, List.flatMap_append, Element.inner_eq]
  exact congrArg _ (List.append_nil _)

theorem texts_cons (e : Element) (es : List Element) : texts (e :: es) = texts [e] ++ texts es := by
  rw [texts, ← List.singleton_append, allDepths_append, List.flatMap_append]; rfl

theorem texts_subset_of_mem {e : Element} {es : List Element} (h : e ∈ es) : texts [e] ⊆ texts es := by
  have hdepths : allDepths [e] ⊆ allDepths es := by
    intro x hx
    rw [allDepths, List.flatMap_singleton] at hx
    exact List.mem_flatMap.mpr ⟨e, h, hx⟩
  intro p hp
  obtain ⟨x, hx, hxp⟩ := List.mem_flatMap.mp hp
  exact List.mem_flatMap.mpr ⟨x, hdepths hx, hxp⟩

theorem headTexts_subset_texts (e : Element) : e.headTexts ⊆ texts [e] := by
  rw [texts_singleton]
  exact fun p hp => List.mem_append_left _ (List.mem_append_left _ hp)

theorem statementsOf_subset_texts {e : Element} {body : List Statement} (h : body ∈ e.bodies) :
    statementsOf body ⊆ texts [e] := by
  rw [texts_singleton]
  exact fun p hp => List.mem_append_left _ (List.mem_append_right _ (List.mem_flatMap.mpr ⟨body, h, hp⟩))

/-- The texts of an element in a body are texts of the element with that body. -/
theorem texts_subset_of_bodies {x e : Element} {body : List Statement} (h : body ∈ e.bodies)
    (hx : x ∈ elementsOf body) : texts [x] ⊆ texts [e] := by
  rw [texts_singleton e]
  exact fun p hp => List.mem_append_right _
    (texts_subset_of_mem (Element.mem_children.mpr ⟨body, h, hx⟩) hp)

end TypeScribe

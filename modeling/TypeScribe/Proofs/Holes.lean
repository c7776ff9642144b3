import TypeScribe.Proofs.Places

/-!
# Required texts that can be exchanged

Every required text of a tree, in the order in which a check looks at them, as a hole in the tree: the text, what a
check tells if it is blank, and the tree with any other text in its place. With the text itself in its place the tree is
as it was. A check finds nothing exactly when no text is blank, and what it tells of a tree in which just one text was
made blank is that text.

* `Element.holes`, `elementHoles`: the holes of an element and of a list of elements.
* `Told`: a check tells the first blank text of some holes.
* `Told.eq_none_iff`, `Told.of_mem`: what a check tells of a tree, and of one in which one text was made blank.
* `Element.told`, `elements_told`: elements and lists of elements are checked so.
-/

namespace TypeScribe

/-- A required text of a thing: what is told if it is missing, and the thing with another text in its place. -/
structure Hole {α : Type} (whole : α) where
  missing : MissingField
  text : String
  fill : String → α
  /-- With the text itself in its place the thing is as it was. -/
  fill_text : fill text = whole

/-- Required texts of a thing, in order. -/
abbrev Holes {α : Type} (whole : α) := List (Hole whole)

namespace Holes

variable {α β : Type} {part : α} {whole : β}

/-- With a part put into its place the whole is as it was. -/
structure Restores (put : α → β) (part : α) (whole : β) : Prop where
  eq : put part = whole

/-- The required texts of a part are required by the whole in which it stands. -/
def inside (holes : Holes part) (put : α → β) (hput : Restores put part whole := by exact ⟨rfl⟩) : Holes whole :=
  holes.map fun h => ⟨h.missing, h.text, fun t => put (h.fill t), by rw [h.fill_text, hput.eq]⟩

/-- The required texts of a part as they are told from one step further up. -/
def under (holes : Holes part) (step : Step) : Holes part :=
  holes.map fun h => { h with missing := h.missing.under step }

/-- A text that is required by itself. -/
def required (kind : Kind) (field text : String) : Holes text := [⟨{ kind, field }, text, id, rfl⟩]

/-- A text that is required if it is there. -/
def optional (kind : Kind) (field : String) : (text : Option String) → Holes text
  | none => []
  | some text => (required kind field text).inside some

/-- The required texts of the parts in a list, whose numbers are counted from an index. -/
def numbered (holes : Nat → (a : α) → Holes a) : Nat → (parts : List α) → Holes parts
  | _, [] => []
  | index, a :: rest => (holes index a).inside (· :: rest) ++ (numbered holes (index + 1) rest).inside (a :: ·)

end Holes

open Holes (required optional numbered)

/-- A field: its name, which is told by its number, and its type, which is told by the name. -/
def Field.holes (kind : Kind) (list : String) (index : Nat) (f : Field) : Holes f :=
  ((required kind list f.name).under (.item list index)).inside (fun name => { f with name }) ++
    (((required kind list f.type).under (.key f.name)).under (.key list)).inside fun type => { f with type }

/-- A list of fields. -/
def Fields.holes (kind : Kind) (list : String) (fields : Fields) : Holes fields :=
  numbered (Field.holes kind list) 0 fields

mutual

/-- A value: its expression, or those in it. -/
def Value.holes (kind : Kind) : (v : Value) → Holes v
  | .raw text => (required kind "value" text).inside .raw
  | .object entries => (ObjectLiteral.holes kind entries).inside .object

/-- An object literal: the value of each entry, which is told by the key. -/
def ObjectLiteral.holes (kind : Kind) : (entries : List ObjectEntry) → Holes entries
  | [] => []
  | ⟨key, value⟩ :: rest =>
    ((value.holes kind).under (.key key)).inside (⟨key, ·⟩ :: rest) ++
      (ObjectLiteral.holes kind rest).inside (⟨key, value⟩ :: ·)

end

/-- The value of a constant. The entries of an object literal stand under it. -/
def Constant.valueHoles : (v : Value) → Holes v
  | .raw text => (required .constDecl "value" text).inside .raw
  | .object entries => ((ObjectLiteral.holes .constDecl entries).under (.key "value")).inside .object

/-- A constant. -/
def Constant.holes (c : Constant) : Holes c :=
  ((required .constDecl "name" c.name).inside fun name => { c with name }) ++
    (Constant.valueHoles c.value).inside fun value => { c with value }

/-- A type alias. -/
def TypeAlias.holes (t : TypeAlias) : Holes t :=
  ((required .typeDecl "name" t.name).inside fun name => { t with name }) ++
    (required .typeDecl "value" t.value).inside fun value => { t with value }

/-- An interface. -/
def Interface.holes (i : Interface) : Holes i :=
  ((required .interfaceDecl "name" i.name).inside fun name => { i with name }) ++
    (i.properties.holes .interfaceDecl "properties").inside fun properties => { i with properties }

/-- A member of an enum. -/
def EnumMember.holes : (m : EnumMember) → Holes m
  | .bare name => (required .enumMember "name" name).inside .bare
  | .valued name value =>
    (required .enumMember "name" name).inside (.valued · value) ++
      (required .enumMember "value" value).inside (.valued name ·)

/-- An enum. -/
def Enumeration.holes (e : Enumeration) : Holes e :=
  ((required .enumDecl "name" e.name).inside fun name => { e with name }) ++
    (numbered (fun i m => m.holes.under (.item "members" i)) 0 e.members).inside fun members => { e with members }

/-- A property of a class. -/
def ClassProperty.holes (p : ClassProperty) : Holes p :=
  ((required .property "name" p.name).inside fun name => { p with name }) ++
    (((optional .property "type" p.type).inside fun type => { p with type }) ++
      (optional .property "value" p.value).inside fun value => { p with value })

/-- A signature. -/
def Signature.holes (kind : Kind) (s : Signature) : Holes s :=
  ((s.args.holes kind "args").inside fun args => { s with args }) ++
    (optional kind "returnType" s.returnType).inside fun returnType => { s with returnType }

/-- A function apart from its body. -/
def FunctionHead.holes (f : FunctionHead) : Holes f :=
  ((required .functionDecl "name" f.name).inside fun name => { f with name }) ++
    (f.signature.holes .functionDecl).inside fun signature => { f with signature }

/-- A method apart from its body; a constructor needs no result. -/
def MethodHead.holes (m : MethodHead) : Holes m :=
  ((required .method "name" m.name).inside fun name => { m with name }) ++
    if m.isConstructor then
      (m.signature.args.holes .method "args").inside fun args => { m with signature := { m.signature with args } }
    else (m.signature.holes .method).inside fun signature => { m with signature }

/-- A class apart from its methods. -/
def ClassHead.holes (c : ClassHead) : Holes c :=
  ((required .classDecl "name" c.name).inside fun name => { c with name }) ++
    (((optional .classDecl "extends" c.parent).inside fun parent => { c with parent }) ++
      (((numbered (fun i name => (required .classDecl "implements" name).under (.item "implements" i)) 0
          c.implements).inside fun implements => { c with implements }) ++
        (numbered (fun i p => p.holes.under (.item "properties" i)) 0 c.properties).inside
          fun properties => { c with properties }))

mutual

/-- The required texts of an element. -/
def Element.holes : (e : Element) → Holes e
  | .constDecl decl => decl.holes.inside .constDecl
  | .typeDecl decl => decl.holes.inside .typeDecl
  | .interfaceDecl decl => decl.holes.inside .interfaceDecl
  | .functionDecl head body =>
    head.holes.inside (.functionDecl · body) ++ (Statement.holes "body" 0 body).inside (.functionDecl head ·)
  | .arrowFunction signature body =>
    (signature.holes .arrowFunction).inside (.arrowFunction · body) ++
      (Statement.holes "body" 0 body).inside (.arrowFunction signature ·)
  | .classDecl head methods =>
    head.holes.inside (.classDecl · methods) ++ (Method.holes 0 methods).inside (.classDecl head ·)
  | .enumDecl decl => decl.holes.inside .enumDecl
  | .ifElse condition body none =>
    (required .ifElse "condition" condition).inside (.ifElse · body none) ++
      (Statement.holes "body" 0 body).inside (.ifElse condition · none)
  | .ifElse condition body (some otherwise) =>
    (required .ifElse "condition" condition).inside (.ifElse · body (some otherwise)) ++
      ((Statement.holes "body" 0 body).inside (.ifElse condition · (some otherwise)) ++
        (Statement.holes "else" 0 otherwise).inside fun others => .ifElse condition body (some others))
  | .forLoop clauses body => (Statement.holes "body" 0 body).inside (.forLoop clauses ·)
  | .forOfLoop iteration body =>
    ((required .forOfLoop "variable" iteration.binder).inside
        fun binder => .forOfLoop { iteration with binder } body) ++
      (((required .forOfLoop "iterable" iteration.iterable).inside
          fun iterable => .forOfLoop { iteration with iterable } body) ++
        (Statement.holes "body" 0 body).inside (.forOfLoop iteration ·))

/-- The required texts of the elements in a body, whose items are counted from an index. -/
def Statement.holes (list : String) : Nat → (body : List Statement) → Holes body
  | _, [] => []
  | index, .raw text :: rest => (Statement.holes list (index + 1) rest).inside (.raw text :: ·)
  | index, .element e :: rest =>
    (e.holes.under (.item list index)).inside (.element · :: rest) ++
      (Statement.holes list (index + 1) rest).inside (.element e :: ·)

/-- The required texts of methods, which are counted from an index. -/
def Method.holes : Nat → (methods : List Method) → Holes methods
  | _, [] => []
  | index, ⟨head, body⟩ :: rest =>
    (head.holes.under (.item "methods" index)).inside (⟨·, body⟩ :: rest) ++
      (((Statement.holes "body" 0 body).under (.item "methods" index)).inside (⟨head, ·⟩ :: rest) ++
        (Method.holes (index + 1) rest).inside (⟨head, body⟩ :: ·))

end

/-- The required texts of a list of elements. -/
def elementHoles (es : List Element) : Holes es := numbered (fun i e => e.holes.under (.item CodeFile.place i)) 0 es

/-! ## Checks that tell the first blank text -/

section

variable {α β : Type} {check : β → Option MissingField} {part : α} {whole : β}

/-- A check tells the first blank text of some holes: with a blank text in a hole it tells that hole, and if the text of
the hole is not blank it goes on with the others. After the last one nothing is told. -/
def Told (check : α → Option MissingField) {whole : α} : Holes whole → Prop
  | [] => check whole = none
  | h :: rest =>
    (∀ t, isBlank t = true → check (h.fill t) = some h.missing) ∧ (isBlank h.text = false → Told check rest)

namespace Told

variable {first : α → Option MissingField} {holes : Holes part} {put : α → β}

/-- The holes of a part and then others: the check of the whole tells what that of the part does, and goes on with the
others if this tells nothing. -/
theorem part_append {more : Holes whole} (hput : Holes.Restores put part whole) (ht : Told first holes)
    (hfirst : ∀ x m, first x = some m → check (put x) = some m) (hmore : first part = none → Told check more) :
    Told check (holes.inside put hput ++ more) := by
  induction holes with
  | nil => exact hmore ht
  | cons h rest ih =>
    exact ⟨fun t hblank => hfirst _ _ (ht.1 t hblank), fun hink => ih (ht.2 hink)⟩

/-- The holes of a part that is all that is checked. -/
theorem last (hput : Holes.Restores put part whole) (ht : Told first holes) (hcheck : ∀ x, check (put x) = first x) :
    Told check (holes.inside put hput) := by
  induction holes with
  | nil => exact (congrArg check hput.eq).symm.trans ((hcheck part).trans ht)
  | cons h rest ih =>
    exact ⟨fun t hblank => (hcheck _).trans (ht.1 t hblank), fun hink => ih (ht.2 hink)⟩

theorem under (step : Step) (ht : Told first holes) :
    Told (fun a => (first a).map (·.under step)) (holes.under step) := by
  induction holes with
  | nil => exact congrArg (Option.map _) ht
  | cons h rest ih =>
    exact ⟨fun t hblank => congrArg (Option.map _) (ht.1 t hblank), fun hink => ih (ht.2 hink)⟩

theorem required (kind : Kind) (field text : String) : Told (require kind field) (required kind field text) :=
  ⟨fun _ hblank => if_pos hblank, fun hink => require_eq_none_iff.mpr hink⟩

theorem optional (kind : Kind) (field : String) (text : Option String) :
    Told (requireSome kind field) (optional kind field text) := by
  cases text with
  | none => rfl
  | some text => exact last ⟨rfl⟩ (required kind field text) fun _ => rfl

/-- The parts of a list are checked one after the other. -/
theorem numbered {checks : Nat → α → Option MissingField} {holes : Nat → (a : α) → Holes a}
    (h : ∀ index a, Told (checks index) (holes index a)) (index : Nat) (parts : List α) :
    Told (firstMissing checks index) (numbered holes index parts) := by
  induction parts generalizing index with
  | nil => rfl
  | cons a rest ih =>
    refine part_append ⟨rfl⟩ (h index a) (fun x m hx => ?_) fun hnone => last ⟨rfl⟩ (ih (index + 1)) fun x => ?_
    · rw [firstMissing, hx, Option.some_or]
    · rw [firstMissing, hnone, Option.none_or]

/-- A check finds nothing exactly when no text is blank. -/
theorem eq_none_iff {holes : Holes whole} (ht : Told check holes) :
    check whole = none ↔ ∀ h ∈ holes, isBlank h.text = false := by
  induction holes with
  | nil => exact ⟨fun _ _ h => absurd h List.not_mem_nil, fun _ => ht⟩
  | cons h rest ih =>
    rw [List.forall_mem_cons]
    refine ⟨fun hnone => ?_, fun hink => (ih (ht.2 hink.1)).mpr hink.2⟩
    cases hblank : isBlank h.text with
    | false => exact ⟨rfl, (ih (ht.2 hblank)).mp hnone⟩
    | true =>
      have hsome := ht.1 h.text hblank
      rw [h.fill_text, hnone] at hsome
      cases hsome

/-- If no text is blank, a check of the thing with a blank text in one hole tells that hole. -/
theorem of_mem {holes : Holes whole} (ht : Told check holes) (hink : ∀ h ∈ holes, isBlank h.text = false) :
    ∀ h ∈ holes, ∀ t, isBlank t = true → check (h.fill t) = some h.missing := by
  induction holes with
  | nil => exact fun _ h => absurd h List.not_mem_nil
  | cons h rest ih =>
    rw [List.forall_mem_cons] at hink ⊢
    exact ⟨ht.1, ih (ht.2 hink.1) hink.2⟩

end Told

end

/-! ## Parts of elements -/

theorem Field.told (kind : Kind) (list : String) (index : Nat) (f : Field) :
    Told (Field.missing? kind list index) (f.holes kind list index) := by
  refine .part_append ⟨rfl⟩ ((Told.required kind list f.name).under _) (fun x m hx => ?_) fun hname =>
    .last ⟨rfl⟩ (((Told.required kind list f.type).under _).under _) fun x => ?_
  · rw [Field.missing?, hx, Option.some_or]
  · rw [Field.missing?, hname, Option.none_or, Option.map_map]; rfl

theorem Fields.told (kind : Kind) (list : String) (fields : Fields) :
    Told (Fields.missing? kind list) (fields.holes kind list) :=
  .numbered (Field.told kind list) 0 fields

mutual

theorem Value.told (kind : Kind) : ∀ v : Value, Told (Value.missing? kind) (v.holes kind)
  | .raw text => by
    rw [Value.holes]
    exact .last ⟨rfl⟩ (.required kind "value" text) fun x => by rw [Value.missing?]
  | .object entries => by
    rw [Value.holes]
    exact .last ⟨rfl⟩ (ObjectLiteral.told kind entries) fun x => by rw [Value.missing?]

theorem ObjectLiteral.told (kind : Kind) : ∀ entries : List ObjectEntry,
    Told (ObjectLiteral.missing? kind) (ObjectLiteral.holes kind entries)
  | [] => by rw [ObjectLiteral.holes]; exact rfl
  | ⟨key, value⟩ :: rest => by
    rw [ObjectLiteral.holes]
    refine .part_append ⟨rfl⟩ ((Value.told kind value).under (.key key)) (fun x m hx => ?_) fun hvalue =>
      .last ⟨rfl⟩ (ObjectLiteral.told kind rest) fun x => ?_
    · rw [ObjectLiteral.missing?, hx, Option.some_or]
    · rw [ObjectLiteral.missing?, hvalue, Option.none_or]

end

theorem Constant.told (c : Constant) : Told Constant.missing? c.holes := by
  have hvalue : Told (fun v => match v with
      | .raw text => require .constDecl "value" text
      | .object entries => (ObjectLiteral.missing? .constDecl entries).map (·.under (.key "value")))
      (Constant.valueHoles c.value) := by
    cases c.value with
    | raw text => exact .last ⟨rfl⟩ (.required .constDecl "value" text) fun _ => rfl
    | object entries => exact .last ⟨rfl⟩ ((ObjectLiteral.told .constDecl entries).under _) fun _ => rfl
  refine .part_append ⟨rfl⟩ (.required .constDecl "name" c.name) (fun x m hx => ?_) fun hname =>
    .last ⟨rfl⟩ hvalue fun x => ?_
  · rw [missing?, hx, Option.some_or]
  · exact (congrArg (Option.or · _) hname).trans Option.none_or

theorem TypeAlias.told (t : TypeAlias) : Told TypeAlias.missing? t.holes := by
  refine .part_append ⟨rfl⟩ (.required .typeDecl "name" t.name) (fun x m hx => ?_) fun hname =>
    .last ⟨rfl⟩ (.required .typeDecl "value" t.value) fun x => ?_
  · rw [missing?, hx, Option.some_or]
  · rw [missing?, hname, Option.none_or]

theorem Interface.told (i : Interface) : Told Interface.missing? i.holes := by
  refine .part_append ⟨rfl⟩ (.required .interfaceDecl "name" i.name) (fun x m hx => ?_) fun hname =>
    .last ⟨rfl⟩ (Fields.told .interfaceDecl "properties" i.properties) fun x => ?_
  · rw [missing?, hx, Option.some_or]
  · rw [missing?, hname, Option.none_or]

theorem EnumMember.told : ∀ m : EnumMember, Told EnumMember.missing? m.holes
  | .bare name => .last ⟨rfl⟩ (.required .enumMember "name" name) fun _ => rfl
  | .valued name value => by
    refine .part_append ⟨rfl⟩ (.required .enumMember "name" name) (fun x m hx => ?_) fun hname =>
      .last ⟨rfl⟩ (.required .enumMember "value" value) fun x => ?_
    · rw [missing?, hx, Option.some_or]
    · rw [missing?, hname, Option.none_or]

theorem Enumeration.told (e : Enumeration) : Told Enumeration.missing? e.holes := by
  refine .part_append ⟨rfl⟩ (.required .enumDecl "name" e.name) (fun x m hx => ?_) fun hname =>
    .last ⟨rfl⟩ (.numbered (fun _ m => m.told.under _) 0 e.members) fun x => ?_
  · rw [missing?, hx, Option.some_or]
  · rw [missing?, hname, Option.none_or]

theorem ClassProperty.told (p : ClassProperty) : Told ClassProperty.missing? p.holes := by
  refine .part_append ⟨rfl⟩ (.required .property "name" p.name) (fun x m hx => ?_) fun hname =>
    .part_append ⟨rfl⟩ (.optional .property "type" p.type) (fun x m hx => ?_) fun htype =>
      .last ⟨rfl⟩ (.optional .property "value" p.value) fun x => ?_
  · rw [missing?, hx, Option.some_or]
  · rw [missing?, hname, Option.none_or, hx, Option.some_or]
  · rw [missing?, hname, Option.none_or, htype, Option.none_or]

theorem Signature.told (kind : Kind) (s : Signature) : Told (Signature.missing? kind) (s.holes kind) := by
  refine .part_append ⟨rfl⟩ (Fields.told kind "args" s.args) (fun x m hx => ?_) fun hargs =>
    .last ⟨rfl⟩ (.optional kind "returnType" s.returnType) fun x => ?_
  · rw [missing?, hx, Option.some_or]
  · rw [missing?, hargs, Option.none_or]

theorem FunctionHead.told (f : FunctionHead) : Told FunctionHead.missing? f.holes := by
  refine .part_append ⟨rfl⟩ (.required .functionDecl "name" f.name) (fun x m hx => ?_) fun hname =>
    .last ⟨rfl⟩ (f.signature.told .functionDecl) fun x => ?_
  · rw [missing?, hx, Option.some_or]
  · rw [missing?, hname, Option.none_or]

/-- Whether a method is a constructor is told by its name, and the name comes first. -/
theorem MethodHead.told (m : MethodHead) : Told MethodHead.missing? m.holes := by
  refine .part_append ⟨rfl⟩ (.required .method "name" m.name) (fun x d hx => ?_) fun hname => ?_
  · rw [missing?, hx, Option.some_or]
  · by_cases hc : m.isConstructor = true
    · rw [if_pos hc]
      refine .last ⟨rfl⟩ (Fields.told .method "args" m.signature.args) fun x => ?_
      rw [missing?, hname, Option.none_or]
      exact if_pos hc
    · rw [if_neg hc]
      refine .last ⟨rfl⟩ (m.signature.told .method) fun x => ?_
      rw [missing?, hname, Option.none_or]
      exact if_neg hc

theorem ClassHead.told (c : ClassHead) : Told ClassHead.missing? c.holes := by
  refine .part_append ⟨rfl⟩ (.required .classDecl "name" c.name) (fun x m hx => ?_) fun hname =>
    .part_append ⟨rfl⟩ (.optional .classDecl "extends" c.parent) (fun x m hx => ?_) fun hparent =>
      .part_append ⟨rfl⟩ (.numbered (fun _ name => (Told.required .classDecl "implements" name).under _) 0 c.implements)
        (fun x m hx => ?_) fun himplements =>
          .last ⟨rfl⟩ (.numbered (fun _ p => p.told.under _) 0 c.properties) fun x => ?_
  · rw [missing?, hx, Option.some_or]
  · rw [missing?, hname, Option.none_or, hx, Option.some_or]
  · rw [missing?, hname, Option.none_or, hparent, Option.none_or, hx, Option.some_or]
  · rw [missing?, hname, Option.none_or, hparent, Option.none_or, himplements, Option.none_or]

/-! ## Elements -/

mutual

theorem Element.told : ∀ e : Element, Told Element.missing? e.holes
  | .constDecl decl => by
    rw [Element.holes]
    exact .last ⟨rfl⟩ decl.told fun x => by rw [Element.missing?]
  | .typeDecl decl => by
    rw [Element.holes]
    exact .last ⟨rfl⟩ decl.told fun x => by rw [Element.missing?]
  | .interfaceDecl decl => by
    rw [Element.holes]
    exact .last ⟨rfl⟩ decl.told fun x => by rw [Element.missing?]
  | .functionDecl head body => by
    rw [Element.holes]
    refine .part_append ⟨rfl⟩ head.told (fun x m hx => ?_) fun hhead =>
      .last ⟨rfl⟩ (Statement.told "body" 0 body) fun x => ?_
    · rw [Element.missing?, hx, Option.some_or]
    · rw [Element.missing?, hhead, Option.none_or]
  | .arrowFunction signature body => by
    rw [Element.holes]
    refine .part_append ⟨rfl⟩ (signature.told .arrowFunction) (fun x m hx => ?_) fun hsignature =>
      .last ⟨rfl⟩ (Statement.told "body" 0 body) fun x => ?_
    · rw [Element.missing?, hx, Option.some_or]
    · rw [Element.missing?, hsignature, Option.none_or]
  | .classDecl head methods => by
    rw [Element.holes]
    refine .part_append ⟨rfl⟩ head.told (fun x m hx => ?_) fun hhead =>
      .last ⟨rfl⟩ (Method.told 0 methods) fun x => ?_
    · rw [Element.missing?, hx, Option.some_or]
    · rw [Element.missing?, hhead, Option.none_or]
  | .enumDecl decl => by
    rw [Element.holes]
    exact .last ⟨rfl⟩ decl.told fun x => by rw [Element.missing?]
  | .ifElse condition body none => by
    rw [Element.holes]
    refine .part_append ⟨rfl⟩ (.required .ifElse "condition" condition) (fun x m hx => ?_) fun hcondition =>
      .last ⟨rfl⟩ (Statement.told "body" 0 body) fun x => ?_
    · rw [Element.missing?, hx, Option.some_or]
    · rw [Element.missing?, hcondition, Option.none_or]
  | .ifElse condition body (some otherwise) => by
    rw [Element.holes]
    refine .part_append ⟨rfl⟩ (.required .ifElse "condition" condition) (fun x m hx => ?_) fun hcondition =>
      .part_append ⟨rfl⟩ (Statement.told "body" 0 body) (fun x m hx => ?_) fun hbody =>
        .last ⟨rfl⟩ (Statement.told "else" 0 otherwise) fun x => ?_
    · rw [Element.missing?, hx, Option.some_or]
    · rw [Element.missing?, hcondition, Option.none_or, hx, Option.some_or]
    · rw [Element.missing?, hcondition, Option.none_or, hbody, Option.none_or]
  | .forLoop clauses body => by
    rw [Element.holes]
    exact .last ⟨rfl⟩ (Statement.told "body" 0 body) fun x => by rw [Element.missing?]
  | .forOfLoop iteration body => by
    rw [Element.holes]
    refine .part_append ⟨rfl⟩ (.required .forOfLoop "variable" iteration.binder) (fun x m hx => ?_) fun hbinder =>
      .part_append ⟨rfl⟩ (.required .forOfLoop "iterable" iteration.iterable) (fun x m hx => ?_) fun hiterable =>
        .last ⟨rfl⟩ (Statement.told "body" 0 body) fun x => ?_
    · rw [Element.missing?, hx, Option.some_or]
    · rw [Element.missing?, hbinder, Option.none_or, hx, Option.some_or]
    · rw [Element.missing?, hbinder, Option.none_or, hiterable, Option.none_or]

theorem Statement.told (list : String) : ∀ (index : Nat) (body : List Statement),
    Told (Statement.missing? list index) (Statement.holes list index body)
  | index, [] => by
    rw [Statement.holes]
    exact Statement.missing?.eq_1 list index
  | index, .raw text :: rest => by
    rw [Statement.holes]
    exact .last ⟨rfl⟩ (Statement.told list (index + 1) rest) fun x => by rw [Statement.missing?]
  | index, .element e :: rest => by
    rw [Statement.holes]
    refine .part_append ⟨rfl⟩ (e.told.under _) (fun x m hx => ?_) fun he =>
      .last ⟨rfl⟩ (Statement.told list (index + 1) rest) fun x => ?_
    · rw [Statement.missing?, hx, Option.some_or]
    · rw [Statement.missing?, he, Option.none_or]

theorem Method.told : ∀ (index : Nat) (methods : List Method),
    Told (Method.missing? index) (Method.holes index methods)
  | index, [] => by
    rw [Method.holes]
    exact Method.missing?.eq_1 index
  | index, ⟨head, body⟩ :: rest => by
    rw [Method.holes]
    refine .part_append ⟨rfl⟩ (head.told.under (.item "methods" index)) (fun x m hx => ?_) fun hhead =>
      .part_append ⟨rfl⟩ ((Statement.told "body" 0 body).under (.item "methods" index)) (fun x m hx => ?_) fun hbody =>
        .last ⟨rfl⟩ (Method.told (index + 1) rest) fun x => ?_
    · rw [Method.missing?, Option.map_or, hx, Option.some_or, Option.some_or]
    · rw [Method.missing?, Option.map_or, hhead, Option.none_or, hx, Option.some_or]
    · rw [Method.missing?, Option.map_or, hhead, Option.none_or, hbody, Option.none_or]

end

/-! ## Lists of elements -/

/-- The first defect of a list of elements, seen from the list. -/
theorem firstMissing_elements (index : Nat) (es : List Element) :
    firstMissing (fun i e => e.missing?.map (·.under (.item CodeFile.place i))) index es =
      (firstDefect index es).map fun (i, m) => m.under (.item CodeFile.place i) := by
  induction es generalizing index with
  | nil => rfl
  | cons e es ih =>
    rw [firstMissing, ih, firstDefect_cons, Option.map_or, Option.map_map]
    rfl

theorem elements_told (es : List Element) :
    Told (fun es => (firstDefect 0 es).map fun (i, m) => m.under (.item CodeFile.place i)) (elementHoles es) := by
  have h := Told.numbered (fun i e => (Element.told e).under (.item CodeFile.place i)) 0 es
  rwa [funext (firstMissing_elements 0)] at h

/-- A list of elements passes its check exactly when none of its required texts is blank. -/
theorem validateFrom_eq_ok_iff {list : String} {es : List Element} :
    validateFrom list 0 es = .ok () ↔ ∀ h ∈ elementHoles es, isBlank h.text = false := by
  rw [← (elements_told es).eq_none_iff, Option.map_eq_none_iff, validateFrom_eq]
  cases firstDefect 0 es with
  | none => exact ⟨fun _ => rfl, fun _ => rfl⟩
  | some d => exact ⟨fun h => (nomatch h), fun h => (nomatch h)⟩

/-- If a list passes its check, the list with one of its texts made blank fails it with that text. -/
theorem validateFrom_fill {list : String} {es : List Element} (hvalid : validateFrom list 0 es = .ok ())
    {h : Hole es} (hh : h ∈ elementHoles es) {t : String} (ht : isBlank t = true) :
    ∃ (i : Nat) (m : MissingField), h.missing = m.under (.item CodeFile.place i) ∧
      validateFrom list 0 (h.fill t) = .error (m.at (itemPlace list i)) := by
  obtain ⟨⟨i, m⟩, hdefect, hm⟩ := Option.map_eq_some_iff.mp <|
    (elements_told es).of_mem (validateFrom_eq_ok_iff.mp hvalid) h hh t ht
  exact ⟨i, m, hm.symm, by rw [validateFrom_eq, hdefect]⟩

end TypeScribe

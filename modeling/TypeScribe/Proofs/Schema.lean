import Mathlib.Data.List.Nodup
import Mathlib.Data.List.Pairwise
import TypeScribe.Element.Basic
import TypeScribe.Proofs.Trees

/-!
# The schema of documents

Which tables there are in a document, which fields each of them has, and what shape the value of a field is to
have; when a tree conforms to a shape; and where in a tree a value of some shape is looked for. A value may also
be written in another form than its shape says: a table of fixed shape as an array of its fields, a word as a
number or a table. A tree is plain when it has no such form where a shape would take it.

* `Conforms`: a tree has a shape.
* `IsPlain`: nowhere in a tree does another form stand for a shape.
* `TableKind.slot_unique`: a key belongs to one field of a table at most.
* `Conforms.isPlain`: what conforms is plain.
-/

namespace TypeScribe

/-- The tables of fixed shape. -/
inductive TableKind where
  | document | output | service | entityType | entitySet | enumType | operation
  /-- An element without its tag, or a part of one that is a table by itself. -/
  | part (kind : Kind)
  | object
deriving DecidableEq

/-- The shape that a value is to have. -/
inductive Shape where
  | text
  | bool
  /-- A whole number below 256. -/
  | byte
  /-- A text, number or truth value. -/
  | scalar
  /-- One of some words. -/
  | word (words : List String)
  /-- Null, or a value of a shape. -/
  | nullable (shape : Shape)
  | list (item : Shape)
  /-- A table whose keys are free names. -/
  | free (value : Shape)
  /-- A text, or a table of a shape. -/
  | textOr (table : Shape)
  /-- A text, number or truth value, or a table of a shape. -/
  | scalarOr (table : Shape)
  /-- A table of fixed shape. -/
  | record (kind : TableKind)
  /-- A table of fixed shape with a tag that says which. -/
  | element
deriving DecidableEq

/-- A field of a table of fixed shape. -/
structure Slot where
  name : String
  aliases : List String
  shape : Shape
  isRequired : Bool
deriving DecidableEq

namespace Slot

/-- The keys under which the field may stand. -/
def names (s : Slot) : List String := s.name :: s.aliases

/-- A field that must be there. -/
def needed (name : String) (shape : Shape) : Slot := ⟨name, [], shape, true⟩

/-- A field that may be left out. -/
def optional (name : String) (shape : Shape) : Slot := ⟨name, [], shape, false⟩

/-- The same field under one more key. -/
def orNamed (s : Slot) (key : String) : Slot := { s with aliases := s.aliases ++ [key] }

end Slot

namespace Shape

/-- Names with their types. -/
def fields : Shape := .free .text

/-- The items of a body. -/
def body : Shape := .list (.textOr .element)

/-- The value of a constant or of a key of an object literal. -/
def value : Shape := .scalarOr (.record .object)

/-- The members of an enum. -/
def members : Shape := .list (.textOr (.record (.part .enumMember)))

/-- Who may see a class member. -/
def visibility : Shape := .nullable (.word ["public", "private", "protected"])

end Shape

/-- The fields of an element without its tag, and of the parts of elements. -/
def Kind.slots : Kind → List Slot
  | .constDecl => [.needed "name" .text, .needed "value" .value, .optional "exported" .bool]
  | .typeDecl => [.needed "name" .text, .needed "value" .text, .optional "exported" .bool]
  | .interfaceDecl =>
    [.needed "name" .text, (Slot.optional "properties" .fields).orNamed "value", .optional "exported" .bool]
  | .functionDecl =>
    [.needed "name" .text, .optional "args" .fields, .optional "returnType" (.nullable .text),
      .optional "body" .body, .optional "exported" .bool]
  | .arrowFunction =>
    [.optional "args" .fields, .optional "returnType" (.nullable .text), .optional "body" .body]
  | .classDecl =>
    [.needed "name" .text, .optional "extends" (.nullable .text), .optional "implements" (.list .text),
      .optional "properties" (.list (.record (.part .property))),
      .optional "methods" (.list (.record (.part .method))), .optional "exported" .bool]
  | .method =>
    [.needed "name" .text, .optional "visibility" .visibility, .optional "static" .bool,
      .optional "args" .fields, .optional "returnType" (.nullable .text), .optional "body" .body]
  | .property =>
    [.needed "name" .text, .optional "visibility" .visibility, .optional "static" .bool,
      .optional "readonly" .bool, .optional "type" (.nullable .text), .optional "value" .scalar]
  | .enumDecl => [.needed "name" .text, .optional "members" .members, .optional "exported" .bool]
  | .enumMember => [.needed "name" .text, .needed "value" .scalar]
  | .ifElse => [.needed "condition" .text, .optional "body" .body, .optional "else" (.nullable .body)]
  | .forLoop =>
    [.optional "initializer" .text, .optional "condition" .text, .optional "incrementor" .text,
      .optional "body" .body]
  | .forOfLoop => [.needed "variable" .text, .needed "iterable" .text, .optional "body" .body]

/-- The fields of a table of fixed shape. -/
def TableKind.slots : TableKind → List Slot
  | .document =>
    [.optional "output" (.record .output), .optional "service" (.nullable (.record .service)),
      .optional "elements" (.list .element)]
  | .output =>
    [.optional "path" (.nullable .text), .optional "indent" .byte, .optional "tabs" .bool,
      .optional "banner" (.nullable .text)]
  | .service =>
    [.needed "name" .text, .optional "entityTypes" (.list (.record .entityType)),
      .optional "entitySets" (.list (.record .entitySet)), .optional "enumTypes" (.list (.record .enumType)),
      .optional "actions" (.list (.record .operation)), .optional "functions" (.list (.record .operation))]
  | .entityType =>
    [.needed "name" .text, .optional "keys" (.list .text), .optional "properties" .fields]
  | .entitySet => [.needed "name" .text, .needed "entityType" .text]
  | .enumType => [.needed "name" .text, .optional "members" .members]
  | .operation =>
    [.needed "name" .text, .optional "parameters" .fields, .optional "returnType" (.nullable .text)]
  | .part kind => kind.slots
  | .object => [.optional "type" (.nullable (.word ["object"])), .optional "properties" (.free .value)]

/-- The key of the tag of an element. -/
def Shape.tagName : String := "type"

/-- The kinds of elements, which have tags. -/
def Kind.isElement : Kind → Bool
  | .method | .property | .enumMember => false
  | _ => true

/-- The tags of elements. -/
def Shape.tags : List String :=
  ["const", "type", "interface", "function", "arrowFunction", "class", "enum", "if", "for", "forOf"]

/-- A tree has a shape. -/
inductive Conforms : Shape → Tree → Prop
  | text (value : String) : Conforms .text (.text value)
  | bool (value : Bool) : Conforms .bool (.bool value)
  | byte {value : Int} (low : 0 ≤ value) (high : value < 256) : Conforms .byte (.integer value)
  | scalarText (value : String) : Conforms .scalar (.text value)
  | scalarBool (value : Bool) : Conforms .scalar (.bool value)
  | scalarInteger (value : Int) : Conforms .scalar (.integer value)
  | scalarDouble (value : Double) : Conforms .scalar (.double value)
  | word {words : List String} {value : String} (known : value ∈ words) : Conforms (.word words) (.text value)
  | null (shape : Shape) : Conforms (.nullable shape) .null
  | nullable {shape : Shape} {t : Tree} (given : Conforms shape t) : Conforms (.nullable shape) t
  | list {item : Shape} {items : List Tree} (all : ∀ t ∈ items, Conforms item t) :
    Conforms (.list item) (.array items)
  /-- Every value has the shape; a key may come more than once. -/
  | free {value : Shape} {pairs : List (String × Tree)} (all : ∀ p ∈ pairs, Conforms value p.2) :
    Conforms (.free value) (.table pairs)
  | textOrText (table : Shape) (value : String) : Conforms (.textOr table) (.text value)
  | textOrTable {table : Shape} {pairs : List (String × Tree)} (given : Conforms table (.table pairs)) :
    Conforms (.textOr table) (.table pairs)
  | scalarOrScalar {table : Shape} {t : Tree} (given : Conforms .scalar t) : Conforms (.scalarOr table) t
  | scalarOrTable {table : Shape} {pairs : List (String × Tree)} (given : Conforms table (.table pairs)) :
    Conforms (.scalarOr table) (.table pairs)
  /-- Every key is that of a field, no two keys are those of one field, every field that must be there is
  there, and the values have the shapes of their fields. -/
  | record {kind : TableKind} {pairs : List (String × Tree)}
    (known : ∀ p ∈ pairs, ∃ slot ∈ kind.slots, p.1 ∈ slot.names)
    (once : pairs.Pairwise fun p q => ∀ slot ∈ kind.slots, p.1 ∈ slot.names → q.1 ∉ slot.names)
    (complete : ∀ slot ∈ kind.slots, slot.isRequired = true → ∃ p ∈ pairs, p.1 ∈ slot.names)
    (shapes : ∀ p ∈ pairs, ∀ slot ∈ kind.slots, p.1 ∈ slot.names → Conforms slot.shape p.2) :
    Conforms (.record kind) (.table pairs)
  /-- Somewhere among the entries stands a tag, and the other entries are those of its kind. -/
  | element {kind : Kind} {before after : List (String × Tree)} (tagged : kind.isElement = true)
    (fields : Conforms (.record (.part kind)) (.table (before ++ after))) :
    Conforms .element (.table (before ++ (Shape.tagName, .text kind.word) :: after))

/-- In a tree that is to have a shape, some value stands where it is to have some shape. -/
inductive Stands : Shape → Tree → Shape → Tree → Prop
  | here (shape : Shape) (t : Tree) : Stands shape t shape t
  | nullable {shape s : Shape} {t u : Tree} (given : t ≠ .null) (below : Stands shape t s u) :
    Stands (.nullable shape) t s u
  | item {item s : Shape} {items : List Tree} {t u : Tree} (mem : t ∈ items) (below : Stands item t s u) :
    Stands (.list item) (.array items) s u
  | value {value s : Shape} {pairs : List (String × Tree)} {p : String × Tree} {u : Tree} (mem : p ∈ pairs)
    (below : Stands value p.2 s u) : Stands (.free value) (.table pairs) s u
  | textOr {table s : Shape} {pairs : List (String × Tree)} {u : Tree}
    (below : Stands table (.table pairs) s u) : Stands (.textOr table) (.table pairs) s u
  | scalarOr {table s : Shape} {pairs : List (String × Tree)} {u : Tree}
    (below : Stands table (.table pairs) s u) : Stands (.scalarOr table) (.table pairs) s u
  | field {kind : TableKind} {s : Shape} {pairs : List (String × Tree)} {p : String × Tree} {slot : Slot} {u : Tree}
    (mem : p ∈ pairs) (slot_mem : slot ∈ kind.slots) (key : p.1 ∈ slot.names)
    (below : Stands slot.shape p.2 s u) : Stands (.record kind) (.table pairs) s u
  | tag {pairs : List (String × Tree)} {p : String × Tree} (mem : p ∈ pairs) (key : p.1 = Shape.tagName) :
    Stands .element (.table pairs) (.word Shape.tags) p.2
  | element {kind : Kind} {before after : List (String × Tree)} {s : Shape} {u : Tree}
    (tagged : kind.isElement = true) (single : ∀ p ∈ before ++ after, p.1 ≠ Shape.tagName)
    (below : Stands (.record (.part kind)) (.table (before ++ after)) s u) :
    Stands .element (.table (before ++ (Shape.tagName, .text kind.word) :: after)) s u

/-- A value is of another form than a shape says, but one that may stand for it: an array for a table of fixed
shape, or a number or a table for a word. -/
inductive StandsFor : Tree → Shape → Prop
  | record (items : List Tree) (kind : TableKind) : StandsFor (.array items) (.record kind)
  | element (items : List Tree) : StandsFor (.array items) .element
  | integer (value : Int) (words : List String) : StandsFor (.integer value) (.word words)
  | double (value : Double) (words : List String) : StandsFor (.double value) (.word words)
  | table (pairs : List (String × Tree)) (words : List String) : StandsFor (.table pairs) (.word words)

/-- Nowhere in a tree that is to have a shape does a value of another form stand for a shape. -/
def IsPlain (shape : Shape) (t : Tree) : Prop := ∀ s u, Stands shape t s u → ¬ StandsFor u s

/-! ## Keys -/

theorem Kind.nodup_names (kind : Kind) : (kind.slots.flatMap Slot.names).Nodup := by
  cases kind <;> decide

theorem TableKind.nodup_names (kind : TableKind) : (kind.slots.flatMap Slot.names).Nodup := by
  cases kind with
  | part kind => exact kind.nodup_names
  | _ => decide

/-- A key belongs to one field of a table at most. -/
theorem TableKind.slot_unique {kind : TableKind} {a b : Slot} {key : String} (ha : a ∈ kind.slots)
    (hb : b ∈ kind.slots) (hka : key ∈ a.names) (hkb : key ∈ b.names) : a = b := by
  by_contra hne
  have hdisjoint := (List.nodup_flatMap.mp kind.nodup_names).2
  have : Std.Symm (Function.onFun List.Disjoint Slot.names) := ⟨fun _ _ => List.disjoint_symm⟩
  exact hdisjoint.forall ha hb hne hka hkb

/-- The key of the tag is not that of a field. -/
theorem Kind.tagName_not_mem {kind : Kind} (h : kind.isElement = true) :
    ∀ slot ∈ kind.slots, Shape.tagName ∉ slot.names := by
  cases kind <;> first | (exact absurd h Bool.false_ne_true) | decide

/-! ## What conforms is plain -/

theorem Conforms.untagged {kind : Kind} {pairs : List (String × Tree)} (h : kind.isElement = true)
    (hc : Conforms (.record (.part kind)) (.table pairs)) : ∀ p ∈ pairs, p.1 ≠ Shape.tagName := by
  cases hc with
  | record known _ _ _ =>
    intro p hp htag
    obtain ⟨slot, hslot, hkey⟩ := known p hp
    exact Kind.tagName_not_mem h slot hslot (htag ▸ hkey)

theorem Kind.word_mem_tags {kind : Kind} (h : kind.isElement = true) : kind.word ∈ Shape.tags := by
  cases kind <;> first | (exact absurd h Bool.false_ne_true) | decide

/-- The first tag among some entries is in one place only. -/
theorem tag_unique {before after before' after' : List (String × Tree)} {t t' : Tree}
    (h : ∀ p ∈ before, p.1 ≠ Shape.tagName) (h' : ∀ p ∈ before', p.1 ≠ Shape.tagName)
    (heq : before ++ (Shape.tagName, t) :: after = before' ++ (Shape.tagName, t') :: after') :
    before = before' ∧ t = t' ∧ after = after' := by
  induction before generalizing before' with
  | nil =>
    cases before' with
    | nil =>
      obtain ⟨hp, rfl⟩ := List.cons.inj heq
      exact ⟨rfl, (Prod.mk.inj hp).2, rfl⟩
    | cons p before' =>
      have hp := (List.cons.inj heq).1
      exact absurd (congrArg Prod.fst hp).symm (h' p List.mem_cons_self)
  | cons p before ih =>
    cases before' with
    | nil =>
      have hp := (List.cons.inj heq).1
      exact absurd (congrArg Prod.fst hp) (h p List.mem_cons_self)
    | cons p' before' =>
      obtain ⟨rfl, htail⟩ := List.cons.inj heq
      obtain ⟨rfl, rfl, rfl⟩ := ih (fun q hq => h q (List.mem_cons_of_mem _ hq))
        (fun q hq => h' q (List.mem_cons_of_mem _ hq)) htail
      exact ⟨rfl, rfl, rfl⟩

/-- Without a tag there is no element. -/
theorem not_conforms_untagged {pairs : List (String × Tree)} (h : ∀ p ∈ pairs, p.1 ≠ Shape.tagName) :
    ¬ Conforms .element (.table pairs) := by
  intro hc
  cases hc with
  | element => exact h _ (List.mem_append_right _ List.mem_cons_self) rfl

/-- An element from its first tag. -/
theorem conforms_element_iff {before after : List (String × Tree)} {t : Tree}
    (h : ∀ p ∈ before, p.1 ≠ Shape.tagName) :
    Conforms .element (.table (before ++ (Shape.tagName, t) :: after)) ↔ ∃ kind : Kind,
      t = .text kind.word ∧ kind.isElement = true ∧ Conforms (.record (.part kind)) (.table (before ++ after)) := by
  constructor
  · intro hc
    generalize ht : Tree.table (before ++ (Shape.tagName, t) :: after) = u at hc
    cases hc with
    | @element kind _ _ tagged fields =>
      obtain ⟨rfl, rfl, rfl⟩ := tag_unique h
        (fun p hp => fields.untagged tagged p (List.mem_append_left _ hp)) (Tree.table.inj ht)
      exact ⟨kind, rfl, tagged, fields⟩
  · rintro ⟨kind, rfl, tagged, fields⟩
    exact .element tagged fields

/-- Whatever stands in a tree that conforms conforms to what is looked for there. -/
theorem Conforms.of_stands {shape s : Shape} {t u : Tree} (hs : Stands shape t s u) :
    Conforms shape t → Conforms s u := by
  induction hs with
  | here shape t => exact id
  | nullable given _ ih =>
    intro hc
    cases hc with
    | null => exact absurd rfl given
    | nullable hc => exact ih hc
  | item mem _ ih =>
    intro hc
    cases hc with
    | list all => exact ih (all _ mem)
  | value mem _ ih =>
    intro hc
    cases hc with
    | free all => exact ih (all _ mem)
  | textOr _ ih =>
    intro hc
    cases hc with
    | textOrTable hc => exact ih hc
  | scalarOr _ ih =>
    intro hc
    cases hc with
    | scalarOrScalar hc => cases hc
    | scalarOrTable hc => exact ih hc
  | field mem slot_mem key _ ih =>
    intro hc
    cases hc with
    | record _ _ _ shapes => exact ih (shapes _ mem _ slot_mem key)
  | @tag pairs p mem key =>
    intro hc
    cases hc with
    | element tagged fields =>
      rcases List.mem_append.mp mem with hb | ha
      · exact absurd key (fields.untagged tagged p (List.mem_append_left _ hb))
      · rcases List.mem_cons.mp ha with rfl | ha
        · exact .word (Kind.word_mem_tags tagged)
        · exact absurd key (fields.untagged tagged p (List.mem_append_right _ ha))
  | @element kind before after _ _ tagged single _ ih =>
    intro hc
    obtain ⟨kind', hword, -, fields⟩ :=
      (conforms_element_iff fun p hp => single p (List.mem_append_left _ hp)).mp hc
    obtain rfl := Kind.word_injective (Tree.text.inj hword)
    exact ih fields

/-- What conforms is plain. -/
theorem Conforms.isPlain {shape : Shape} {t : Tree} (h : Conforms shape t) : IsPlain shape t := by
  intro s u hs hu
  have hc := h.of_stands hs
  cases hu <;> cases hc

end TypeScribe

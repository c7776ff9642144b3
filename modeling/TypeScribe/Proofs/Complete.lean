import TypeScribe.Element.Missing
import TypeScribe.Proofs.Texts

/-!
# Elements that lack nothing

What is known of an element in which nothing is missing: its members and properties have names, and the elements
in its bodies lack nothing either.

* `Element.missing?_of_bodies`: the elements in the bodies of an element.
-/

namespace TypeScribe

/-! ## Members -/

/-- Parts lack nothing exactly when none of them does, where the number of a part does not matter. -/
theorem firstMissing_eq_none_iff {α : Type} {check : Nat → α → Option MissingField} {P : α → Prop}
    (h : ∀ i a, check i a = none ↔ P a) {index : Nat} {parts : List α} :
    firstMissing check index parts = none ↔ ∀ a ∈ parts, P a := by
  induction parts generalizing index with
  | nil => exact ⟨fun _ _ ha => absurd ha List.not_mem_nil, fun _ => rfl⟩
  | cons a rest ih => rw [firstMissing, Option.or_eq_none_iff, h, ih, List.forall_mem_cons]

/-- The same for parts that are told by their number. -/
theorem firstMissing_items_eq_none_iff {α : Type} {check : α → Option MissingField} {list : String} {index : Nat}
    {parts : List α} : firstMissing (fun i a => (check a).map (·.under (.item list i))) index parts = none ↔
      ∀ a ∈ parts, check a = none :=
  firstMissing_eq_none_iff (P := fun a => check a = none) fun _ _ => Option.map_eq_none_iff

/-- The first part that lacks something decides what is found. -/
theorem firstMissing_of_first {α : Type} {check : Nat → α → Option MissingField} {index : Nat} {before : List α}
    {a : α} {m : MissingField} (hbefore : ∀ b ∈ before, ∀ i, check i b = none)
    (ha : check (index + before.length) a = some m) (after : List α) :
    firstMissing check index (before ++ a :: after) = some m := by
  induction before generalizing index with
  | nil => rw [List.nil_append, firstMissing, show check index a = some m from ha, Option.some_or]
  | cons b before ih =>
    rw [List.forall_mem_cons] at hbefore
    rw [List.cons_append, firstMissing, hbefore.1 index, Option.none_or]
    exact ih hbefore.2 (by rwa [Nat.add_assoc, Nat.add_comm 1])

/-- A field lacks nothing exactly when neither its name nor its type is blank. -/
theorem Field.missing?_eq_none_iff {kind : Kind} {list : String} {index : Nat} {f : Field} :
    f.missing? kind list index = none ↔ isBlank f.name = false ∧ isBlank f.type = false := by
  rw [Field.missing?, Option.or_eq_none_iff, Option.map_eq_none_iff, Option.map_eq_none_iff,
    require_eq_none_iff, require_eq_none_iff]

theorem Fields.missing?_eq_none_iff {kind : Kind} {list : String} {fields : Fields} :
    fields.missing? kind list = none ↔ ∀ f ∈ fields, isBlank f.name = false ∧ isBlank f.type = false :=
  firstMissing_eq_none_iff (P := fun f : Field => isBlank f.name = false ∧ isBlank f.type = false)
    fun _ _ => Field.missing?_eq_none_iff

/-- An object lacks nothing exactly when no value of its properties does. -/
theorem ObjectLiteral.missing?_eq_none_iff {kind : Kind} {entries : List ObjectEntry} :
    ObjectLiteral.missing? kind entries = none ↔ ∀ e ∈ entries, e.value.missing? kind = none := by
  induction entries with
  | nil => rw [ObjectLiteral.missing?]; exact ⟨fun _ _ h => absurd h List.not_mem_nil, fun _ => rfl⟩
  | cons e rest ih =>
    obtain ⟨key, value⟩ := e
    rw [ObjectLiteral.missing?, Option.or_eq_none_iff, Option.map_eq_none_iff, ih, List.forall_mem_cons]

theorem ne_empty_of_require {kind : Kind} {field text : String} (h : require kind field text = none) :
    text ≠ "" := by
  rintro rfl
  exact absurd (require_eq_none_iff.mp h) (by rw [isBlank_empty]; decide)

theorem Enumeration.member_names {e : Enumeration} (h : e.missing? = none) : ∀ m ∈ e.members, m.name ≠ "" := by
  rw [Enumeration.missing?, Option.or_eq_none_iff] at h
  intro m hm
  have hmember := firstMissing_items_eq_none_iff.mp h.2 m hm
  cases m with
  | bare name => exact ne_empty_of_require hmember
  | valued name value =>
    rw [EnumMember.missing?, Option.or_eq_none_iff] at hmember
    exact ne_empty_of_require hmember.1

theorem ClassHead.property_names {c : ClassHead} (h : c.missing? = none) : ∀ p ∈ c.properties, p.name ≠ "" := by
  simp only [ClassHead.missing?, Option.or_eq_none_iff] at h
  intro p hp
  have hproperty := firstMissing_items_eq_none_iff.mp h.2.2.2 p hp
  rw [ClassProperty.missing?, Option.or_eq_none_iff] at hproperty
  exact ne_empty_of_require hproperty.1

/-! ## Bodies -/

/-- A body lacks nothing when no element in it does. -/
theorem Statement.missing?_eq_none_iff {field : String} {index : Nat} {body : List Statement} :
    Statement.missing? field index body = none ↔ ∀ x ∈ elementsOf body, x.missing? = none := by
  induction body generalizing index with
  | nil => rw [Statement.missing?]; exact ⟨fun _ _ h => absurd h List.not_mem_nil, fun _ => rfl⟩
  | cons item rest ih =>
    cases item with
    | raw text => rw [Statement.missing?, ih, elementsOf_raw]
    | element e =>
      rw [Statement.missing?, Option.or_eq_none_iff, Option.map_eq_none_iff, ih, elementsOf_element,
        List.forall_mem_cons]

/-- Methods lack nothing when no head of a method and no body does. -/
theorem Method.missing?_eq_none_iff {index : Nat} {methods : List Method} :
    Method.missing? index methods = none ↔
      ∀ m ∈ methods, m.head.missing? = none ∧ Statement.missing? "body" 0 m.body = none := by
  induction methods generalizing index with
  | nil => rw [Method.missing?]; exact ⟨fun _ _ h => absurd h List.not_mem_nil, fun _ => rfl⟩
  | cons first rest ih =>
    obtain ⟨head, body⟩ := first
    rw [Method.missing?, Option.or_eq_none_iff, Option.map_eq_none_iff, Option.or_eq_none_iff, ih,
      List.forall_mem_cons]

/-- The elements in the bodies of an element that lacks nothing lack nothing. -/
theorem Element.missing?_of_bodies {e : Element} (h : e.missing? = none) :
    ∀ body ∈ e.bodies, ∀ x ∈ elementsOf body, x.missing? = none := by
  have of_body : ∀ {field body}, Statement.missing? field 0 body = none →
      ∀ x ∈ elementsOf body, x.missing? = none := Statement.missing?_eq_none_iff.mp
  cases e with
  | functionDecl head body =>
    rw [Element.missing?, Option.or_eq_none_iff] at h
    exact List.forall_mem_singleton.mpr (of_body h.2)
  | arrowFunction signature body =>
    rw [Element.missing?, Option.or_eq_none_iff] at h
    exact List.forall_mem_singleton.mpr (of_body h.2)
  | classDecl head methods =>
    rw [Element.missing?, Option.or_eq_none_iff] at h
    exact List.forall_mem_map.mpr fun m hm => of_body (Method.missing?_eq_none_iff.mp h.2 m hm).2
  | ifElse condition body otherwise =>
    cases otherwise with
    | none =>
      rw [Element.missing?, Option.or_eq_none_iff] at h
      exact List.forall_mem_singleton.mpr (of_body h.2)
    | some otherwise =>
      rw [Element.missing?, Option.or_eq_none_iff, Option.or_eq_none_iff] at h
      exact List.forall_mem_cons.mpr ⟨of_body h.2.1, List.forall_mem_singleton.mpr (of_body h.2.2)⟩
  | forLoop clauses body =>
    rw [Element.missing?] at h
    exact List.forall_mem_singleton.mpr (of_body h)
  | forOfLoop iteration body =>
    rw [Element.missing?, Option.or_eq_none_iff, Option.or_eq_none_iff] at h
    exact List.forall_mem_singleton.mpr (of_body h.2.2)
  | _ => exact fun _ hb => absurd hb List.not_mem_nil

end TypeScribe

import TypeScribe.Proofs.Formats
import TypeScribe.Proofs.FreeNames
import TypeScribe.Proofs.Reorderings

/-!
# The order of keys

The order of the entries of a table matters where its keys are free names, and nowhere else. The tag of an element may
stand anywhere among its fields.

* `takeTag_reordered`: the tag is taken out wherever it stands.
* `readDocument_steady`: a document with tables of fixed shape in another order is the same document.
* `readEntries_collects`: what an object literal holds of its properties.
* `Document.parse_key_order`: where the order of keys matters in a document, and how.
-/

namespace TypeScribe

open Slot.Steadies (needed optional)

/-! ## Values and members -/

theorem readFields_steady : Steady .fields readFields := readFree_steady readText_steady _ _

theorem readResult_steady : Steady (.nullable .text) (readOptional readText) := readOptional_steady readText_steady

theorem readMember_steady : Steady (.textOr (.record (.part .enumMember))) readMember := by
  have hrecord : memberRecord.IsSteady (TableKind.part .enumMember).slots := {
    columns := .cons (needed "name" readText_steady) <| .cons (needed "value" readVerbatim_steady) .nil
    commute := by simp [memberRecord] }
  intro n n' hn
  have hread := ((Record.read_steady hrecord ⟨.json, false⟩ n n' (hn.congr_core rfl)).map
    fun p => EnumMember.valued p.1 p.2)
  cases hn with
  | text => exact .refl _
  | table => exact hread
  | _ => exact .of_error _ _

theorem readMembers_steady : Steady .members (readList readMember) := readList_steady readMember_steady

theorem objectRecord_steady (mode : Mode) {r : Node → Read Value} (h : Steady .value r) :
    (objectRecord mode r).IsSteady TableKind.object.slots where
  columns := .cons (optional "type" (readOptional_steady (readChoice_steady _ _ mode))) <|
    .cons (optional "properties" (readFree_steady h _ _)) .nil
  commute := by simp [objectRecord]

theorem readValueWithin_steady (mode : Mode) (depth : Nat) : Steady .value (readValueWithin mode depth) := by
  induction depth with
  | zero => exact fun n n' _ => .of_error _ _
  | succ depth ih =>
    intro n n' hn
    have hread := (Record.read_steady (objectRecord_steady mode ih) mode n n' (hn.congr_core rfl)).map Value.object
    cases hv : n.verbatim? with
    | some text =>
      rw [readValueWithin_verbatim hv, readValueWithin_verbatim (hn.verbatim_eq ▸ hv)]
      exact .refl _
    | none =>
      cases hn with
      | table => exact hread
      | text | bool => cases hv
      | number =>
        simp only [readValueWithin, hv]
        exact .of_error _ _
      | _ => exact .of_error _ _

theorem readValue_steady (mode : Mode) : Steady .value (readValue mode) := by
  intro n n' hn
  rw [readValue, readValue, hn.height_eq]
  exact readValueWithin_steady mode _ n n' hn

/-! ## Elements -/

section Nested

variable {nested : Node → Read Element} (h : Steady .element nested)
include h

theorem readStatement_steady : Steady (.textOr .element) (readStatement nested) := by
  intro n n' hn
  have hread := (h n n' (hn.congr_core rfl)).map Statement.element
  cases hn with
  | text => exact .refl _
  | table => exact hread
  | _ => exact .of_error _ _

theorem readBody_steady : Steady .body (readBody nested) := readList_steady (readStatement_steady h)

end Nested

theorem readVisibility_steady (mode : Mode) : Steady .visibility (readOptional (readVisibility mode)) :=
  readOptional_steady (readChoice_steady _ _ mode)

theorem propertyRecord_steady (mode : Mode) : (propertyRecord mode).IsSteady (TableKind.part .property).slots where
  columns := .cons (needed "name" readText_steady) <| .cons (optional "visibility" (readVisibility_steady mode)) <|
    .cons (optional "static" readBool_steady) <| .cons (optional "readonly" readBool_steady) <|
    .cons (optional "type" readResult_steady) <| .cons (optional "value" readVerbatim_steady) .nil
  commute := by simp [propertyRecord]

section Kinds

variable {nested : Node → Read Element} (h : Steady .element nested) (mode : Mode)
include h

theorem methodRecord_steady : (methodRecord mode nested).IsSteady (TableKind.part .method).slots where
  columns := .cons (needed "name" readText_steady) <| .cons (optional "visibility" (readVisibility_steady mode)) <|
    .cons (optional "static" readBool_steady) <| .cons (optional "args" readFields_steady) <|
    .cons (optional "returnType" readResult_steady) <| .cons (optional "body" (readBody_steady h)) .nil
  commute := by simp [methodRecord, Method.mapHead]

/-- The fields of every kind of element are read steadily when nested elements are. -/
theorem readKind_steady (kind : Kind) : Steady (.record (.part kind)) (readKind mode nested kind) := by
  have body : Steady .body (readBody nested) := readBody_steady h
  cases kind with
  | constDecl =>
    refine (Record.read_steady ⟨?_, by simp [constantRecord]⟩ mode).map _
    exact .cons (needed "name" readText_steady) <| .cons (needed "value" (readValue_steady mode)) <|
      .cons (optional "exported" readBool_steady) .nil
  | typeDecl =>
    refine (Record.read_steady ⟨?_, by simp [aliasRecord]⟩ mode).map _
    exact .cons (needed "name" readText_steady) <| .cons (needed "value" readText_steady) <|
      .cons (optional "exported" readBool_steady) .nil
  | interfaceDecl =>
    refine (Record.read_steady ⟨?_, by simp [interfaceRecord]⟩ mode).map _
    exact .cons (needed "name" readText_steady) <|
      .cons ((optional "properties" readFields_steady).orNamed "value") <|
      .cons (optional "exported" readBool_steady) .nil
  | functionDecl =>
    refine (Record.read_steady ⟨?_, by simp [functionRecord]⟩ mode).map _
    exact .cons (needed "name" readText_steady) <| .cons (optional "args" readFields_steady) <|
      .cons (optional "returnType" readResult_steady) <| .cons (optional "body" body) <|
      .cons (optional "exported" readBool_steady) .nil
  | arrowFunction =>
    refine (Record.read_steady ⟨?_, by simp [arrowRecord]⟩ mode).map _
    exact .cons (optional "args" readFields_steady) <| .cons (optional "returnType" readResult_steady) <|
      .cons (optional "body" body) .nil
  | classDecl =>
    refine (Record.read_steady ⟨?_, by simp [classRecord]⟩ mode).map _
    exact .cons (needed "name" readText_steady) <| .cons (optional "extends" readResult_steady) <|
      .cons (optional "implements" (readList_steady readText_steady)) <|
      .cons (optional "properties" (readList_steady (Record.read_steady (propertyRecord_steady mode) mode))) <|
      .cons (optional "methods" (readList_steady (Record.read_steady (methodRecord_steady h mode) mode))) <|
      .cons (optional "exported" readBool_steady) .nil
  | enumDecl =>
    refine (Record.read_steady ⟨?_, by simp [enumRecord]⟩ mode).map _
    exact .cons (needed "name" readText_steady) <| .cons (optional "members" readMembers_steady) <|
      .cons (optional "exported" readBool_steady) .nil
  | ifElse =>
    refine (Record.read_steady ⟨?_, by simp [branchRecord]⟩ mode).map _
    exact .cons (needed "condition" readText_steady) <| .cons (optional "body" body) <|
      .cons (optional "else" (readOptional_steady body)) .nil
  | forLoop =>
    refine (Record.read_steady ⟨?_, by simp [loopRecord]⟩ mode).map _
    exact .cons (optional "initializer" readText_steady) <| .cons (optional "condition" readText_steady) <|
      .cons (optional "incrementor" readText_steady) <| .cons (optional "body" body) .nil
  | forOfLoop =>
    refine (Record.read_steady ⟨?_, by simp [iterationRecord]⟩ mode).map _
    exact .cons (needed "variable" readText_steady) <| .cons (needed "iterable" readText_steady) <|
      .cons (optional "body" body) .nil
  | method | property | enumMember => exact fun _ _ _ => .of_error _ _

theorem readWhole_steady (kind : Kind) : Steady (.record (.part kind)) (readWhole mode nested kind) :=
  fun n n' hn => (readKind_steady h mode.inner kind n n' hn).mapError _ _

end Kinds

/-! ## Tags -/

section Tags

variable {mode : Mode} {kind : Kind}

/-- An entry that is not the tag is kept, and the tag is taken out of the others. -/
theorem takeTag_other_eq_ok {tag : Option Kind} {e : Entry} {rest : List Entry} {result : Option Kind × List Entry}
    (hkey : e.key.name ≠ tagKey) (h : takeTag mode tag (e :: rest) = .ok result) :
    e.IsField ∧ ∃ more, takeTag mode tag rest = .ok (result.1, more) ∧ result.2 = e :: more := by
  obtain ⟨key, value⟩ := e
  rw [takeTag_other hkey] at h
  cases hvalue : value.admitAll with
  | error f => rw [hvalue] at h; cases h
  | ok u =>
    rw [hvalue] at h
    cases hrest : takeTag mode tag rest with
    | error f => rw [hrest] at h; cases h
    | ok r =>
      rw [hrest] at h
      obtain rfl := Except.ok.inj h
      exact ⟨⟨hkey, hvalue⟩, r.2, rfl, rfl⟩

/-- After the tag all other entries are fields. -/
theorem fields_of_takeTag {entries : List Entry} {result : Option Kind × List Entry}
    (h : takeTag mode (some kind) entries = .ok result) :
    (∀ e ∈ entries, e.IsField) ∧ result = (some kind, entries) := by
  induction entries generalizing result with
  | nil =>
    rw [takeTag] at h
    exact ⟨fun _ he => absurd he List.not_mem_nil, (Except.ok.inj h).symm⟩
  | cons e rest ih =>
    by_cases hkey : e.key.name = tagKey
    · obtain ⟨key, value⟩ := e
      rw [takeTag_second_tag hkey] at h
      cases h
    · obtain ⟨he, more, hmore, hresult⟩ := takeTag_other_eq_ok hkey h
      obtain ⟨hrest, heq⟩ := ih hmore
      obtain ⟨htag, rfl⟩ := Prod.mk.inj heq
      exact ⟨List.forall_mem_cons.mpr ⟨he, hrest⟩, Prod.ext htag hresult⟩

/-- The entries of an element whose tag can be taken: one is the tag, wherever it stands, and the others are fields. -/
structure Tagged (mode : Mode) (kind : Kind) (before : List Entry) (e : Entry) (after : List Entry) : Prop where
  key : e.key.name = tagKey
  read : readVariant elementTags mode e.value = .ok kind
  fields : ∀ f ∈ before ++ after, f.IsField

theorem Tagged.takeTag_eq {before after : List Entry} {e : Entry} (h : Tagged mode kind before e after) :
    takeTag mode none (before ++ e :: after) = .ok (some kind, before ++ after) := by
  obtain ⟨key, value⟩ := e
  exact takeTag_single h.fields h.key h.read

theorem tagged_of_takeTag {entries others : List Entry} (h : takeTag mode none entries = .ok (some kind, others)) :
    ∃ before e after, entries = before ++ e :: after ∧ others = before ++ after ∧ Tagged mode kind before e after := by
  induction entries generalizing others with
  | nil => cases h
  | cons first rest ih =>
    by_cases hkey : first.key.name = tagKey
    · obtain ⟨key, value⟩ := first
      rw [takeTag_tag hkey] at h
      cases hread : readVariant elementTags mode value with
      | error f => rw [hread] at h; cases h
      | ok k =>
        rw [hread] at h
        obtain ⟨hrest, heq⟩ := fields_of_takeTag h
        obtain ⟨hk, rfl⟩ := Prod.mk.inj heq
        exact ⟨[], ⟨key, value⟩, others, rfl, rfl, hkey, Option.some.inj hk ▸ hread, hrest⟩
    · obtain ⟨hfirst, more, hmore, rfl⟩ := takeTag_other_eq_ok hkey h
      obtain ⟨before, e, after, rfl, rfl, htag, hread, hfields⟩ := ih hmore
      exact ⟨first :: before, e, after, rfl, rfl, htag, hread, List.forall_mem_cons.mpr ⟨hfirst, hfields⟩⟩

/-- A number that is handed over as an index is a whole number. -/
theorem index?_eq_some {value : Number} {i : Nat} (h : value.index? mode = some i) :
    ∃ index, value = .integer index ∧ i = index.toNat := by
  cases value with
  | integer index =>
    refine ⟨index, rfl, ?_⟩
    rw [Number.index?] at h
    split at h
    · split at h
      · exact (Option.some.inj h).symm
      · cases h
    · split at h
      · exact (Option.some.inj h).symm
      · cases h
  | _ => cases h

/-- A tag that is read says its kind. -/
theorem kind?_of_readVariant {n : Node} (h : readVariant elementTags mode n = .ok kind) : n.kind? = some kind := by
  cases n with
  | text span name =>
    rw [readVariant, findVariant] at h
    rw [Node.kind?]
    cases hl : elementTags.lookup name with
    | none => rw [hl] at h; cases h
    | some k => rw [hl] at h; exact congrArg some (Except.ok.inj h)
  | number span value =>
    rw [readVariant] at h
    cases hi : value.index? mode with
    | none => rw [hi] at h; cases h
    | some i =>
      rw [hi] at h
      dsimp only at h
      obtain ⟨index, rfl, rfl⟩ := index?_eq_some hi
      rw [Node.kind?]
      rw [elementTags, List.getElem?_map] at h
      cases hk : taggedKinds[index.toNat]? with
      | none => rw [hk] at h; cases h
      | some k => rw [hk] at h; exact congrArg some (Except.ok.inj h)
  | _ => cases h

end Tags

section Elements

variable {mode : Mode} {kind : Kind}

/-- The fields of an element are looked for under its tag. -/
theorem Tagged.field_eq {before after : List Entry} {e : Entry} (h : Tagged mode kind before e after) (key : String) :
    Shape.field .element (before ++ e :: after) key = (TableKind.part kind).field key := by
  have hfind : (before ++ e :: after).find? (fun f => f.key.name = tagKey) = some e := by
    have hbefore : before.find? (fun f => f.key.name = tagKey) = none := by
      rw [List.find?_eq_none]
      intro f hf
      have hne := (h.fields f (List.mem_append_left _ hf)).1
      simpa using hne
    have he : decide (e.key.name = tagKey) = true := decide_eq_true h.key
    rw [List.find?_append, hbefore, Option.none_or]
    exact List.find?_cons_of_pos he
  rw [Shape.field]
  simp only [Shape.core, hfind, Option.bind_some, kind?_of_readVariant h.read]

/-- Taking the tag out of an element that is reordered leaves its fields, reordered. -/
theorem takeTag_reordered {pairs : List (Entry × Entry)} {others fields : List Entry} (span span' : Span)
    (keys : ∀ p ∈ pairs, p.2.key.name = p.1.key.name)
    (all : ∀ p ∈ pairs, Reordered (Shape.field .element (pairs.map Prod.fst) p.1.key.name) p.1.value p.2.value)
    (hperm : others.Perm (pairs.map Prod.snd)) (h : takeTag mode none (pairs.map Prod.fst) = .ok (some kind, fields)) :
    ∃ fields', takeTag mode none others = .ok (some kind, fields') ∧
      Reordered (.record (.part kind)) (.table span fields true) (.table span' fields' true) := by
  obtain ⟨before, e, after, hsplit, rfl, htag⟩ := tagged_of_takeTag h
  have hshape : ∀ p ∈ pairs, Reordered ((TableKind.part kind).field p.1.key.name) p.1.value p.2.value := by
    intro p hp
    have hvalue := all p hp
    rwa [hsplit, htag.field_eq] at hvalue
  obtain ⟨first, rest, rfl, rfl, hrest⟩ := List.map_eq_append_iff.mp hsplit
  obtain ⟨p, last, rfl, rfl, rfl⟩ := List.map_eq_cons_iff.mp hrest
  have hp : p ∈ first ++ p :: last := List.mem_append_right _ List.mem_cons_self
  have hothers : ∀ q ∈ first ++ last, q ∈ first ++ p :: last := fun q hq =>
    (List.mem_append.mp hq).elim (List.mem_append_left _) fun hq => List.mem_append_right _ (List.mem_cons_of_mem p hq)
  -- The tag stands somewhere among the entries in their other order, which without it are the other fields.
  obtain ⟨b, a, rfl⟩ := List.append_of_mem (hperm.mem_iff.mpr (List.mem_map_of_mem hp))
  have hfields : (b ++ a).Perm ((first ++ last).map Prod.snd) := by
    rw [List.map_append, List.map_cons] at hperm
    rw [List.map_append]
    exact (List.perm_middle.symm.trans (hperm.trans List.perm_middle)).cons_inv
  have htag' : Tagged mode kind b p.2 a := by
    refine ⟨(keys p hp).trans htag.key, readVariant_steady _ mode _ _ (hshape p hp) _ htag.read, fun f hf => ?_⟩
    obtain ⟨q, hq, rfl⟩ := List.mem_map.mp (hfields.mem_iff.mp hf)
    have hfield := htag.fields q.1 (by rw [← List.map_append]; exact List.mem_map_of_mem hq)
    exact ⟨(keys q (hothers q hq)).symm ▸ hfield.1, (hshape q (hothers q hq)).admitAll_eq_ok hfield.2⟩
  refine ⟨b ++ a, htag'.takeTag_eq, ?_⟩
  rw [← List.map_append]
  exact .table span span' true (first ++ last) (b ++ a) (fun q hq => keys q (hothers q hq))
    (fun q hq => hshape q (hothers q hq)) (.inr ⟨rfl, hfields⟩)

theorem admitItems_keeps {pairs : List (Node × Node)} {shape : Nat → Shape}
    (h : ∀ i p, pairs[i]? = some p → Reordered (shape i) p.1 p.2) :
    Keeps (admitItems (pairs.map Prod.fst)) (admitItems (pairs.map Prod.snd)) := by
  rintro ⟨⟩ hwhole
  rw [admitItems_eq_ok_iff, List.forall_mem_map] at hwhole ⊢
  intro p hp
  obtain ⟨i, hi⟩ := List.mem_iff_getElem?.mp hp
  exact (h i p hi).admitAll_eq_ok (hwhole p hp)

theorem readElementWithin_steady (format : Format) (depth : Nat) (buffered : Bool) :
    Steady .element (readElementWithin format depth buffered) := by
  induction depth generalizing buffered with
  | zero => exact fun n n' _ => .of_error _ _
  | succ depth ih =>
    intro n n' hn
    cases hn with
    | table span span' closed pairs others keys all order =>
      have hperm : others.Perm (pairs.map Prod.snd) := order.elim (fun heq => heq ▸ .refl _) And.right
      intro a ha
      rw [readElementWithin] at ha ⊢
      cases htake : takeTag ⟨format, buffered⟩ none (pairs.map Prod.fst) with
      | error f => rw [htake] at ha; cases ha
      | ok result =>
        obtain ⟨tag, fields⟩ := result
        rw [htake] at ha
        cases tag with
        | none => cases closed <;> cases ha
        | some kind =>
          obtain ⟨fields', htake', hfields⟩ := takeTag_reordered span span' keys all hperm htake
          rw [htake']
          exact Keeps.bind (.refl (readEnd closed)) (fun _ _ => readWhole_steady (ih true) _ kind _ _ hfields) a ha
    | array span span' closed pairs all =>
      cases pairs with
      | nil => cases closed <;> exact .of_error _ _
      | cons first pairs =>
        simp only [readElementWithin, List.map_cons]
        refine (readVariant_steady _ _ _ _ (all 0 first rfl)).bind fun kind hkind => ?_
        have hitem : ∀ i,
            Shape.item .element ((first :: pairs).map Prod.fst) (i + 1) = (TableKind.part kind).item i := by
          intro i
          rw [Shape.item]
          simp [Shape.core, kind?_of_readVariant hkind]
        have hrest : ∀ i p, pairs[i]? = some p → Reordered ((TableKind.part kind).item i) p.1 p.2 :=
          fun i p hp => hitem i ▸ all (i + 1) p hp
        refine Keeps.bind (admitItems_keeps hrest) fun _ _ => Keeps.bind (.refl _) fun _ _ => ?_
        exact readWhole_steady (ih true) _ kind _ _ (.array span span' true pairs hrest)
    | _ => exact .of_error _ _

theorem readElement_steady (mode : Mode) : Steady .element (readElement mode) := by
  intro n n' hn
  rw [readElement, readElement, hn.height_eq]
  exact readElementWithin_steady _ _ _ n n' hn

end Elements

/-! ## Documents -/

theorem readOutput_steady (mode : Mode) : Steady (.record .output) (outputRecord.read mode) := by
  refine Record.read_steady ⟨?_, by simp [outputRecord]⟩ mode
  exact .cons (optional "path" (readOptional_steady readPath_steady)) <| .cons (optional "indent" readByte_steady) <|
    .cons (optional "tabs" readBool_steady) <| .cons (optional "banner" readResult_steady) .nil

theorem readService_steady (mode : Mode) : Steady (.record .service) (readService mode) := by
  have entityType : Steady (.record .entityType) (entityTypeRecord.read mode) := by
    refine Record.read_steady ⟨?_, by simp [entityTypeRecord]⟩ mode
    exact .cons (needed "name" readText_steady) <| .cons (optional "keys" (readList_steady readText_steady)) <|
      .cons (optional "properties" readFields_steady) .nil
  have entitySet : Steady (.record .entitySet) (entitySetRecord.read mode) := by
    refine Record.read_steady ⟨?_, by simp [entitySetRecord]⟩ mode
    exact .cons (needed "name" readText_steady) <| .cons (needed "entityType" readText_steady) .nil
  have enumType : Steady (.record .enumType) (enumTypeRecord.read mode) := by
    refine Record.read_steady ⟨?_, by simp [enumTypeRecord]⟩ mode
    exact .cons (needed "name" readText_steady) <| .cons (optional "members" readMembers_steady) .nil
  have operation : Steady (.record .operation) (operationRecord.read mode) := by
    refine Record.read_steady ⟨?_, by simp [operationRecord]⟩ mode
    exact .cons (needed "name" readText_steady) <| .cons (optional "parameters" readFields_steady) <|
      .cons (optional "returnType" readResult_steady) .nil
  refine Record.read_steady ⟨?_, by simp [serviceRecord]⟩ mode
  exact .cons (needed "name" readText_steady) <| .cons (optional "entityTypes" (readList_steady entityType)) <|
    .cons (optional "entitySets" (readList_steady entitySet)) <|
    .cons (optional "enumTypes" (readList_steady enumType)) <|
    .cons (optional "actions" (readList_steady operation)) <|
    .cons (optional "functions" (readList_steady operation)) .nil

/-- A document with tables of fixed shape in another order is read as the same document. -/
theorem readDocument_steady (format : Format) : Steady (.record .document) (readDocument format) := by
  refine Record.read_steady ⟨?_, by simp [documentRecord]⟩ _
  exact .cons (optional "output" (readOutput_steady _)) <|
    .cons (optional "service" (readOptional_steady (readService_steady _))) <|
    .cons (optional "elements" (readList_steady (readElement_steady _))) .nil

/-! ## Object literals -/

section Objects

variable {mode : Mode} {value : Node → Read Value}

/-- The properties of an object table are those read last, or what was there before. -/
theorem fillEntries_properties {taken : List String} {o : ObjectLiteral} {entries : List Entry}
    {result : List String × ObjectLiteral} (h : (objectRecord mode value).fillEntries taken o entries = .ok result) :
    (result.2 = o ∧ ∀ e ∈ entries, e.key.name ≠ "properties") ∨ ∃ e ∈ entries, e.key.name = "properties" ∧
      readFree ObjectEntry.key ObjectEntry.mk value e.value = .ok result.2 := by
  induction entries generalizing taken o with
  | nil =>
    rw [Record.fillEntries] at h
    obtain rfl := Except.ok.inj h
    exact .inl ⟨rfl, fun _ he => absurd he List.not_mem_nil⟩
  | cons e rest ih =>
    obtain ⟨c, hc, -, o₁, hfill, hrest⟩ := Record.fillEntries_cons_eq_ok_iff.mp h
    rcases ih hrest with ⟨hresult, hnone⟩ | ⟨f, hf, hlater⟩
    · have hkey : c.names.contains e.key.name = true :=
        List.find?_some (p := fun d : Column ObjectLiteral => d.names.contains e.key.name) hc
      rcases List.mem_pair.mp (List.mem_of_find?_eq_some hc) with rfl | rfl
      · have htype : e.key.name = "type" := by simpa [Column.names, Column.optional] using hkey
        refine .inl ⟨hresult.trans ?_, List.forall_mem_cons.mpr ⟨by rw [htype]; decide, hnone⟩⟩
        cases hread : readOptional (readChoice [("object", ())] mode) e.value with
        | error f => simp [Column.optional, hread, Except.map] at hfill
        | ok a => simpa [Column.optional, hread, Except.map, eq_comm] using hfill
      · have hproperties : e.key.name = "properties" := by simpa [Column.names, Column.optional] using hkey
        refine .inr ⟨e, List.mem_cons_self, hproperties, ?_⟩
        rw [hresult]
        cases hread : readFree ObjectEntry.key ObjectEntry.mk value e.value with
        | error f => simp [Column.optional, hread, Except.map] at hfill
        | ok a => simpa [Column.optional, hread, Except.map] using hfill
    · exact .inr ⟨f, List.mem_cons_of_mem e hf, hlater⟩

/-- An object literal is collected from the table of its properties, and without one it is empty. -/
theorem readEntries_collects {span : Span} {entries : List Entry} {closed : Bool} {o : ObjectLiteral}
    (h : (objectRecord mode value).readEntries span entries closed = .ok o) :
    (o = [] ∧ ∀ e ∈ entries, e.key.name ≠ "properties") ∨ ∃ e ∈ entries, e.key.name = "properties" ∧
      ∃ span' properties, e.value = .table span' properties true ∧
        Collects ObjectEntry.key ObjectEntry.mk value properties o := by
  rw [Record.readEntries] at h
  cases hfill : (objectRecord mode value).fillEntries [] (objectRecord mode value).blank entries with
  | error f => rw [hfill] at h; cases h
  | ok result =>
    have ho : o = result.2 := by
      rw [hfill] at h
      cases closed with
      | false => cases h
      | true =>
        cases hm : (objectRecord mode value).missing? result.1 with
        | none => simpa [bind, Except.bind, readEnd, hm, pure, Except.pure, eq_comm] using h
        | some c => simp [bind, Except.bind, readEnd, hm] at h
    rcases fillEntries_properties hfill with ⟨hblank, hnone⟩ | ⟨e, he, hkey, hread⟩
    · exact .inl ⟨ho.trans hblank, hnone⟩
    · exact .inr ⟨e, he, hkey, readFree_collects (fun _ _ => rfl) (ho ▸ hread)⟩

end Objects

namespace Document

variable {source source' : Source} {format : Format} {n n' : Node} {d : Document}

theorem readDocument_of_decode (h : format.Reads source.text n) (hd : decode source format = .ok d) :
    readDocument format n = .ok d := by
  cases hread : readDocument format n with
  | ok d' =>
    rw [decode_of_reads h hread] at hd
    exact congrArg _ (Except.ok.inj hd)
  | error f =>
    cases format with
    | json =>
      obtain ⟨failure, hfails⟩ := decode_json_of_reads h hread
      rw [hfails] at hd
      cases hd
    | toml =>
      obtain ⟨failure, hfails⟩ := decode_toml_of_reads h hread
      rw [hfails] at hd
      cases hd

/-- The same document is parsed from a text whose tables of fixed shape are in another order. -/
theorem parse_of_reordered (h : format.Reads source.text n) (h' : format.Reads source'.text n')
    (hn : Reordered (.record .document) n n') (hd : parse source format = .ok d) : parse source' format = .ok d := by
  obtain ⟨hdecode, hjudge⟩ := (parse_eq source format d).mp hd
  have hread := readDocument_steady format n n' hn d (readDocument_of_decode h hdecode)
  exact (parse_eq source' format d).mpr ⟨decode_of_reads h' hread, hjudge⟩

/-- Where a document is accepted, the same document is accepted with the entries of all tables of fixed shape in any
order. In a table with free names each name counts once, in the order in which the names come first, with the value
that comes last under it. -/
theorem parse_key_order :
    (∀ (source source' : Source) (format : Format) (n n' : Node) (d : Document), format.Reads source.text n →
      format.Reads source'.text n' → Reordered (.record .document) n n' →
      parse source format = .ok d → parse source' format = .ok d) ∧
    (∀ (format : Format) (n n' : Node) (d : Document), Reordered (.record .document) n n' →
      readDocument format n = .ok d → readDocument format n' = .ok d) ∧
    (∀ (shape : Shape) (entries others : List Entry) (span : Span) (closed : Bool), shape.isFixed = true →
      others.Perm entries → Reordered shape (.table span entries closed) (.table span others closed)) ∧
    (∀ (span : Span) (entries : List Entry), (∃ fields, readFields (.table span entries true) = .ok fields) ↔
      ∀ e ∈ entries, ∃ text, readText e.value = .ok text) ∧
    (∀ (n : Node) (fields : Fields), readFields n = .ok fields →
      ∃ span entries, n = .table span entries true ∧ Collects Field.name Field.mk readText entries fields) ∧
    ∀ (mode : Mode) (value : Node → Read Value) (span : Span) (entries : List Entry) (closed : Bool)
      (o : ObjectLiteral), (objectRecord mode value).readEntries span entries closed = .ok o →
      (o = [] ∧ ∀ e ∈ entries, e.key.name ≠ "properties") ∨ ∃ e ∈ entries, e.key.name = "properties" ∧
        ∃ span' properties, e.value = .table span' properties true ∧
          Collects ObjectEntry.key ObjectEntry.mk value properties o :=
  ⟨fun _ _ _ _ _ _ => parse_of_reordered, fun format n n' d hn => readDocument_steady format n n' hn d,
    fun _ _ _ span closed hshape h => .of_perm hshape h span closed, fun span entries => readFree_isOk_iff span entries,
    fun _ _ => readFields_collects, fun _ _ _ _ _ _ => readEntries_collects⟩

/-- An alias whose tag comes last is the one whose tag comes first. -/
theorem parse_key_order_tag_last :
    let first := "\x7b\"elements\":[\x7b\"type\":\"type\",\"name\":\"A\",\"value\":\"B\"\x7d]\x7d"
    let last := "\x7b\"elements\":[\x7b\"value\":\"B\",\"name\":\"A\",\"type\":\"type\"\x7d]\x7d"
    let d := Document.mk {} none [.typeDecl { name := "A", value := "B" }]
    parse ⟨"a", first⟩ .json = .ok d ∧ parse ⟨"a", last⟩ .json = .ok d := by
  intro first last d
  let tag : Entry := ⟨⟨"type", ⟨14, 20⟩⟩, .text ⟨21, 27⟩ "type"⟩
  let name : Entry := ⟨⟨"name", ⟨28, 34⟩⟩, .text ⟨35, 38⟩ "A"⟩
  let value : Entry := ⟨⟨"value", ⟨39, 46⟩⟩, .text ⟨47, 50⟩ "B"⟩
  let value' : Entry := ⟨⟨"value", ⟨14, 21⟩⟩, .text ⟨22, 25⟩ "B"⟩
  let name' : Entry := ⟨⟨"name", ⟨26, 32⟩⟩, .text ⟨33, 36⟩ "A"⟩
  let tag' : Entry := ⟨⟨"type", ⟨37, 43⟩⟩, .text ⟨44, 50⟩ "type"⟩
  let element := Node.table ⟨13, 51⟩ [tag, name, value] true
  let element' := Node.table ⟨13, 51⟩ [value', name', tag'] true
  let field : Entry := ⟨⟨"elements", ⟨1, 11⟩⟩, .array ⟨12, 52⟩ [element] true⟩
  let field' : Entry := ⟨⟨"elements", ⟨1, 11⟩⟩, .array ⟨12, 52⟩ [element'] true⟩
  let root := Node.table ⟨0, 53⟩ [field] true
  let root' := Node.table ⟨0, 53⟩ [field'] true
  let source : Source := ⟨"a", first⟩
  have hfirst : Format.json.Reads source.text root := by decide +kernel
  have hlast : Format.json.Reads last root' := by decide +kernel
  have helement : Reordered .element element element' := by
    refine .table _ _ true [(tag, tag'), (name, name'), (value, value')] [value', name', tag'] ?_ ?_ (.inr ⟨rfl, ?_⟩)
    · simp [tag, tag', name, name', value, value']
    · simp only [List.forall_mem_cons]
      exact ⟨.text _ _ _ _, .text _ _ _ _, .text _ _ _ _, fun _ h => absurd h List.not_mem_nil⟩
    · exact List.reverse_perm [tag', name', value']
  have hroot : Reordered (.record .document) root root' := by
    refine .table _ _ true [(field, field')] [field'] (List.forall_mem_singleton.mpr rfl)
      (List.forall_mem_singleton.mpr ?_) (.inl rfl)
    refine .array _ _ true [(element, element')] fun i p hp => ?_
    obtain rfl := List.mem_singleton.mp (List.mem_of_getElem? hp)
    exact helement
  have hdecode : readDocument .json root = .ok d := by
    simp only [root, field, element, tag, name, value, d]
    rfl
  have hparse : parse source .json = .ok d := (parse_eq _ _ _).mpr ⟨decode_of_reads hfirst hdecode, by rfl⟩
  exact ⟨hparse, parse_key_order.1 source ⟨"a", last⟩ .json root root' d hfirst hlast hroot hparse⟩

end Document

end TypeScribe

import TypeScribe.Document.Decode
import TypeScribe.Proofs.Readings

/-!
# Documents by their schema

Reading a plain tree as a document succeeds exactly when the tree conforms to the schema, and gives the same
document in both forms.

* `readValueWithin_alike`, `readElementWithin_alike`: values and elements, by induction on how deep they may be
  nested.
* `readDocument_alike`: documents.
* `readDocument_conforms`: a plain tree is read as a document exactly when it conforms.
-/

namespace TypeScribe

open Slot.FitsColumns (needed optional)

variable {depth : Nat}

/-! ## Values and members -/

theorem Agree.textOr {α : Type} {shape : Shape} {pairs : List (String × Tree)} {x y : Read α}
    (h : Agree (Conforms shape (.table pairs)) x y) : Agree (Conforms (.textOr shape) (.table pairs)) x y :=
  h.congr ⟨.textOrTable, fun hc => by cases hc; assumption⟩

theorem Agree.scalarOr {α : Type} {shape : Shape} {pairs : List (String × Tree)} {x y : Read α}
    (h : Agree (Conforms shape (.table pairs)) x y) : Agree (Conforms (.scalarOr shape) (.table pairs)) x y :=
  h.congr ⟨.scalarOrTable, fun hc => by
    cases hc with
    | scalarOrScalar hc => cases hc
    | scalarOrTable hc => exact hc⟩

theorem readFields_alike : ReadAlike depth .fields readFields readFields :=
  readFree_alike readText_alike _ _

theorem readMember_alike : ReadAlike (depth + 1) (.textOr (.record (.part .enumMember))) readMember readMember := by
  have fit : FitColumns depth (TableKind.part .enumMember).slots memberRecord.columns memberRecord.columns :=
    .cons (needed "name" readText_alike) <| .cons (needed "value" readVerbatim_alike) .nil
  have htable := Record.read_alike fit rfl ⟨.json, false⟩ ⟨.json, false⟩
  intro n n' t hd hn hn' hp
  cases hn with
  | text span value => cases hn'; exact .ok (.textOrText _ value) _
  | table span all =>
    cases hn' with
    | table span' all' => exact ((htable _ _ _ hd (.table span all) (.table span' all') hp.textOr).map _).textOr
  | _ =>
    cases hn'
    exact .error (fun h => by cases h) _ _

/-- The columns of object tables read alike when their values do. -/
theorem objectRecord_fit (mode mode' : Mode) {r r' : Node → Read Value} (h : ReadAlike depth .value r r') :
    FitColumns depth TableKind.object.slots (objectRecord mode r).columns (objectRecord mode' r').columns := by
  have words : [("object", ())].map Prod.fst = ["object"] := rfl
  exact .cons (optional "type" (readOptional_alike (readChoice_alike words mode mode'))) <|
    .cons (optional "properties" (readFree_alike h _ _)) .nil

theorem readValueWithin_verbatim {n : Node} {text : String} (h : n.verbatim? = some text) (mode : Mode) :
    readValueWithin mode (depth + 1) n = .ok (.raw text) := by
  rw [readValueWithin]
  exact h

theorem readValueWithin_alike (mode mode' : Mode) (depth : Nat) :
    ReadAlike depth .value (readValueWithin mode depth) (readValueWithin mode' depth) := by
  induction depth with
  | zero =>
    intro n n' t hd
    exact absurd n.height_pos (Nat.not_lt.mpr hd)
  | succ depth ih =>
    have htable := Record.read_alike (objectRecord_fit mode mode' ih) (by rfl) mode mode'
    intro n n' t hd hn hn' hp
    rcases hn.verbatim_alike hn' with ⟨hc, text, h, h'⟩ | ⟨hc, h, h'⟩
    · rw [readValueWithin_verbatim h, readValueWithin_verbatim h']
      exact .ok (.scalarOrScalar hc) _
    · cases hn with
      | table span all =>
        cases hn' with
        | table span' all' =>
          exact ((htable _ _ _ hd (.table span all) (.table span' all') hp.scalarOr).map _).scalarOr
      | null span => cases hn'; exact .error (fun h => by cases h; exact hc ‹_›) _ _
      | array span all => cases hn'; exact .error (fun h => by cases h; exact hc ‹_›) _ _
      | text | bool | double => cases h
      | integer => exact absurd (.scalarInteger _) hc

theorem readValue_alike (mode mode' : Mode) : ReadAlike depth .value (readValue mode) (readValue mode') := by
  intro n n' t _ hn hn' hp
  rw [readValue, readValue, hn.height_eq hn']
  exact readValueWithin_alike mode mode' _ n n' t (Nat.le_of_eq (hn.height_eq hn')) hn hn' hp

/-! ## Elements -/

section Nested

variable {nested nested' : Node → Read Element}

theorem readStatement_alike (h : ReadAlike depth .element nested nested') :
    ReadAlike depth (.textOr .element) (readStatement nested) (readStatement nested') := by
  intro n n' t hd hn hn' hp
  cases hn with
  | text span value => cases hn'; exact .ok (.textOrText _ value) _
  | table span all =>
    cases hn' with
    | table span' all' => exact ((h _ _ _ hd (.table span all) (.table span' all') hp.textOr).map _).textOr
  | _ =>
    cases hn'
    exact .error (fun h => by cases h) _ _

theorem readBody_alike (h : ReadAlike depth .element nested nested') :
    ReadAlike depth .body (readBody nested) (readBody nested') :=
  readList_alike (readStatement_alike h)

theorem readResult_alike : ReadAlike depth (.nullable .text) (readOptional readText) (readOptional readText) :=
  readOptional_alike readText_alike

theorem readMembers_alike : ReadAlike depth .members (readList readMember) (readList readMember) :=
  readList_alike (readMember_alike.mono (Nat.le_succ depth))

theorem readVisibility_alike (mode mode' : Mode) :
    ReadAlike depth .visibility (readOptional (readVisibility mode)) (readOptional (readVisibility mode')) :=
  have words : visibilities.map Prod.fst = ["public", "private", "protected"] := rfl
  readOptional_alike (readChoice_alike words mode mode')

theorem propertyRecord_alike (mode mode' : Mode) :
    ReadAlike (depth + 1) (.record (.part .property)) ((propertyRecord mode).read mode)
      ((propertyRecord mode').read mode') := by
  refine Record.read_alike ?_ (by rfl) mode mode'
  exact .cons (needed "name" readText_alike) <|
    .cons (optional "visibility" (readVisibility_alike mode mode')) <|
    .cons (optional "static" readBool_alike) <|
    .cons (optional "readonly" readBool_alike) <|
    .cons (optional "type" readResult_alike) <|
    .cons (optional "value" readVerbatim_alike) .nil

theorem methodRecord_alike (h : ReadAlike depth .element nested nested') (mode mode' : Mode) :
    ReadAlike (depth + 1) (.record (.part .method)) ((methodRecord mode nested).read mode)
      ((methodRecord mode' nested').read mode') := by
  refine Record.read_alike ?_ (by rfl) mode mode'
  exact .cons (needed "name" readText_alike) <|
    .cons (optional "visibility" (readVisibility_alike mode mode')) <|
    .cons (optional "static" readBool_alike) <|
    .cons (optional "args" readFields_alike) <|
    .cons (optional "returnType" readResult_alike) <|
    .cons (optional "body" (readBody_alike h)) .nil

/-- The fields of every kind of element are read alike when nested elements are. -/
theorem readKind_alike (h : ReadAlike depth .element nested nested') (mode mode' : Mode) {kind : Kind}
    (hkind : kind.isElement = true) :
    ReadAlike (depth + 1) (.record (.part kind)) (readKind mode nested kind) (readKind mode' nested' kind) := by
  have body : ReadAlike depth .body (readBody nested) (readBody nested') := readBody_alike h
  cases kind with
  | constDecl =>
    refine ReadAlike.map (Record.read_alike ?_ (by rfl) mode mode') _
    exact .cons (needed "name" readText_alike) <| .cons (needed "value" (readValue_alike mode mode')) <|
      .cons (optional "exported" readBool_alike) .nil
  | typeDecl =>
    refine ReadAlike.map (Record.read_alike ?_ (by rfl) mode mode') _
    exact .cons (needed "name" readText_alike) <| .cons (needed "value" readText_alike) <|
      .cons (optional "exported" readBool_alike) .nil
  | interfaceDecl =>
    refine ReadAlike.map (Record.read_alike ?_ (by rfl) mode mode') _
    exact .cons (needed "name" readText_alike) <|
      .cons ((optional "properties" readFields_alike).orNamed "value") <|
      .cons (optional "exported" readBool_alike) .nil
  | functionDecl =>
    refine ReadAlike.map (Record.read_alike ?_ (by rfl) mode mode') _
    exact .cons (needed "name" readText_alike) <| .cons (optional "args" readFields_alike) <|
      .cons (optional "returnType" readResult_alike) <| .cons (optional "body" body) <|
      .cons (optional "exported" readBool_alike) .nil
  | arrowFunction =>
    refine ReadAlike.map (Record.read_alike ?_ (by rfl) mode mode') _
    exact .cons (optional "args" readFields_alike) <| .cons (optional "returnType" readResult_alike) <|
      .cons (optional "body" body) .nil
  | classDecl =>
    refine ReadAlike.map (Record.read_alike ?_ (by rfl) mode mode') _
    exact .cons (needed "name" readText_alike) <| .cons (optional "extends" readResult_alike) <|
      .cons (optional "implements" (readList_alike readText_alike)) <|
      .cons (optional "properties" (readList_alike ((propertyRecord_alike mode mode').mono (Nat.le_succ depth)))) <|
      .cons (optional "methods" (readList_alike ((methodRecord_alike h mode mode').mono (Nat.le_succ depth)))) <|
      .cons (optional "exported" readBool_alike) .nil
  | enumDecl =>
    refine ReadAlike.map (Record.read_alike ?_ (by rfl) mode mode') _
    exact .cons (needed "name" readText_alike) <| .cons (optional "members" readMembers_alike) <|
      .cons (optional "exported" readBool_alike) .nil
  | ifElse =>
    refine ReadAlike.map (Record.read_alike ?_ (by rfl) mode mode') _
    exact .cons (needed "condition" readText_alike) <| .cons (optional "body" body) <|
      .cons (optional "else" (readOptional_alike body)) .nil
  | forLoop =>
    refine ReadAlike.map (Record.read_alike ?_ (by rfl) mode mode') _
    exact .cons (optional "initializer" readText_alike) <| .cons (optional "condition" readText_alike) <|
      .cons (optional "incrementor" readText_alike) <| .cons (optional "body" body) .nil
  | forOfLoop =>
    refine ReadAlike.map (Record.read_alike ?_ (by rfl) mode mode') _
    exact .cons (needed "variable" readText_alike) <| .cons (needed "iterable" readText_alike) <|
      .cons (optional "body" body) .nil
  | method | property | enumMember => exact absurd hkind Bool.false_ne_true

end Nested

/-! ## Tags -/

section Tags

variable {mode : Mode} {tag : Option Kind} {key : Key} {value : Node} {rest : List Entry}

theorem takeTag_other (h : key.name ≠ tagKey) :
    takeTag mode tag (⟨key, value⟩ :: rest) = do
      value.admitAll
      let (tag, more) ← takeTag mode tag rest
      return (tag, ⟨key, value⟩ :: more) := by
  rw [takeTag.eq_def]
  exact if_neg h

theorem takeTag_tag (h : key.name = tagKey) :
    takeTag mode none (⟨key, value⟩ :: rest) =
      (readVariant elementTags mode value >>= fun kind => takeTag mode (some kind) rest) := by
  rw [takeTag.eq_def]
  exact if_pos h

theorem takeTag_second_tag (h : key.name = tagKey) (kind : Kind) :
    takeTag mode (some kind) (⟨key, value⟩ :: rest) =
      .error (.misfit (.duplicateField tagKey) (.key key.span)) := by
  rw [takeTag.eq_def]
  exact if_pos h

/-- An entry that is not the tag and can be read whole. -/
def Entry.IsField (e : Entry) : Prop := e.key.name ≠ tagKey ∧ e.value.admitAll = .ok ()

theorem HoldEntries.isField {entries : List Entry} {pairs : List (String × Tree)} (he : HoldEntries entries pairs)
    (h : ∀ p ∈ pairs, p.1 ≠ Shape.tagName) : ∀ e ∈ entries, e.IsField := by
  induction pairs generalizing entries with
  | nil =>
    cases he
    exact fun e hmem => absurd hmem List.not_mem_nil
  | cons p pairs ih =>
    cases he with
    | cons name span hn hrest =>
      rw [List.forall_mem_cons] at h
      exact List.forall_mem_cons.mpr ⟨⟨h.1, hn.admitAll⟩, ih hrest h.2⟩

/-- Taking the tag passes over fields. -/
theorem takeTag_append {first : List Entry} (hf : ∀ e ∈ first, e.IsField) :
    takeTag mode tag (first ++ rest) = (takeTag mode tag rest).map fun r => (r.1, first ++ r.2) := by
  induction first with
  | nil => cases hr : takeTag mode tag rest <;> exact hr
  | cons e first ih =>
    obtain ⟨key, value⟩ := e
    obtain ⟨⟨hkey, hvalue⟩, hrest⟩ := List.forall_mem_cons.mp hf
    rw [List.cons_append, takeTag_other hkey, hvalue, ih hrest]
    cases takeTag mode tag rest <;> rfl

theorem takeTag_untagged {entries : List Entry} (h : ∀ e ∈ entries, e.IsField) :
    takeTag mode tag entries = .ok (tag, entries) := by
  have happend : takeTag mode tag (entries ++ []) = (takeTag mode tag []).map fun r => (r.1, entries ++ r.2) :=
    takeTag_append h
  rwa [List.append_nil, takeTag, Except.map, List.append_nil] at happend

/-- Entries have no tag, or a first one. -/
theorem untagged_or_first_tag (pairs : List (String × Tree)) :
    (∀ p ∈ pairs, p.1 ≠ Shape.tagName) ∨ ∃ before t after, pairs = before ++ (Shape.tagName, t) :: after ∧
      ∀ p ∈ before, p.1 ≠ Shape.tagName := by
  cases hfind : pairs.find? (·.1 == Shape.tagName) with
  | none => exact .inl fun p hp h => List.find?_eq_none.mp hfind p hp (beq_iff_eq.mpr h)
  | some p =>
    obtain ⟨htag, before, after, rfl, hbefore⟩ := List.find?_eq_some_iff_append.mp hfind
    refine .inr ⟨before, p.2, after, ?_, fun q hq h => ?_⟩
    · rw [← beq_iff_eq.mp htag]
    · have := hbefore q hq
      rw [beq_iff_eq.mpr h] at this
      exact absurd this Bool.false_ne_true

/-- Taking the only tag leaves the other entries. -/
theorem takeTag_single {first last : List Entry} (single : ∀ e ∈ first ++ last, e.IsField) {kind : Kind}
    (hkey : key.name = tagKey) (h : readVariant elementTags mode value = .ok kind) :
    takeTag mode none (first ++ ⟨key, value⟩ :: last) = .ok (some kind, first ++ last) := by
  rw [List.forall_mem_append] at single
  rw [takeTag_append single.1, takeTag_tag hkey, h]
  exact congrArg (Except.map _) (takeTag_untagged single.2)

/-- A second tag is a fault. -/
theorem takeTag_second (mode : Mode) (value : Node) {first last : List Entry} {before after : List (String × Tree)}
    (hfirst : HoldEntries first before) (hlast : HoldEntries last after)
    (hbefore : ∀ p ∈ before, p.1 ≠ Shape.tagName) (hafter : ¬ ∀ p ∈ after, p.1 ≠ Shape.tagName) (span : Span) :
    ∃ f, takeTag mode none (first ++ ⟨⟨Shape.tagName, span⟩, value⟩ :: last) = .error f := by
  obtain ⟨before', t, after', rfl, hbefore'⟩ := (untagged_or_first_tag after).resolve_left hafter
  obtain ⟨first', span', n, last', rfl, -, hfirst', -⟩ := hlast.split
  rw [takeTag_append (hfirst.isField hbefore), takeTag_tag rfl]
  cases readVariant elementTags mode value with
  | error f => exact ⟨f, rfl⟩
  | ok kind =>
    show ∃ f, Except.map _ (takeTag mode (some kind) (first' ++ _)) = .error f
    rw [takeTag_append (hfirst'.isField hbefore'), takeTag_second_tag rfl]
    exact ⟨_, rfl⟩

theorem readTag_alike (mode mode' : Mode) :
    ReadAlike depth (.word Shape.tags) (readVariant elementTags mode) (readVariant elementTags mode') :=
  readVariant_alike (by rfl) mode mode'

/-- A tag that is read is that of a kind of elements. -/
theorem readVariant_elementTags {n : Node} {t : Tree} (hn : n.Holds t) (hp : IsPlain (.word Shape.tags) t)
    {kind : Kind} (h : readVariant elementTags mode n = .ok kind) :
    t = .text kind.word ∧ kind.isElement = true := by
  have hword := (readTag_alike mode mode n n t (Nat.le_refl _) hn hn hp).ok_iff.mp ⟨kind, h⟩
  cases hword with
  | @word _ name known =>
    cases hn with
    | text span =>
      rw [readVariant, findVariant] at h
      cases hl : elementTags.lookup name with
      | none =>
        rw [hl] at h
        cases h
      | some k =>
        rw [hl] at h
        obtain rfl := Except.ok.inj h
        obtain ⟨l, l', hsplit, -⟩ := List.lookup_eq_some_iff.mp hl
        have hmem : (name, k) ∈ elementTags := hsplit ▸ List.mem_append_right l List.mem_cons_self
        obtain ⟨k', hk', heq⟩ := List.mem_map.mp hmem
        obtain ⟨rfl, rfl⟩ := Prod.mk.inj heq
        have all : ∀ k ∈ taggedKinds, k.isElement = true := by decide
        exact ⟨rfl, all _ hk'⟩

end Tags

/-- The fields of an element whose tag is known are read alike. -/
theorem readWhole_alike {nested nested' : Node → Read Element} (h : ReadAlike depth .element nested nested')
    (mode mode' : Mode) {kind : Kind} (hkind : kind.isElement = true) :
    ReadAlike (depth + 1) (.record (.part kind)) (readWhole mode nested kind) (readWhole mode' nested' kind) :=
  fun n n' t hd hn hn' hp => (readKind_alike h mode.inner mode'.inner hkind n n' t hd hn hn' hp).mapError _ _

theorem readElementWithin_of_takeTag {format : Format} {buffered : Bool} {entries others : List Entry} {kind : Kind}
    (h : takeTag ⟨format, buffered⟩ none entries = .ok (some kind, others)) (span : Span) :
    readElementWithin format (depth + 1) buffered (.table span entries true) =
      readWhole ⟨format, buffered⟩ (readElementWithin format depth true) kind (.table span others true) := by
  rw [readElementWithin, h]
  rfl

theorem entriesHeight_cons (e : Entry) (entries : List Entry) :
    Node.entriesHeight (e :: entries) = max e.value.height (Node.entriesHeight entries) := by
  cases e
  rw [Node.entriesHeight]

theorem entriesHeight_append (entries more : List Entry) :
    Node.entriesHeight (entries ++ more) = max (Node.entriesHeight entries) (Node.entriesHeight more) := by
  induction entries with
  | nil => exact (Nat.zero_max _).symm
  | cons e entries ih => rw [List.cons_append, entriesHeight_cons, entriesHeight_cons, ih, Nat.max_assoc]

/-- Without one of its entries a table is not nested deeper. -/
theorem height_without (span : Span) (first last : List Entry) (e : Entry) :
    (Node.table span (first ++ last) true).height ≤ (Node.table span (first ++ e :: last) true).height := by
  simp only [Node.height, entriesHeight_append, entriesHeight_cons]
  omega

section Tagged

variable {format format' : Format} {before after : List (String × Tree)} {t : Tree}

/-- An element with one tag is read alike when the elements in it are: its tag first, then its other entries. -/
theorem readSingleTag_alike (buffered buffered' : Bool)
    (ih : ReadAlike depth .element (readElementWithin format depth true) (readElementWithin format' depth true))
    (hbefore : ∀ p ∈ before, p.1 ≠ Shape.tagName) (hafter : ∀ p ∈ after, p.1 ≠ Shape.tagName) {n n' : Node}
    (hd : n.height ≤ depth + 1) (hn : n.Holds (.table (before ++ (Shape.tagName, t) :: after)))
    (hn' : n'.Holds (.table (before ++ (Shape.tagName, t) :: after)))
    (hp : IsPlain .element (.table (before ++ (Shape.tagName, t) :: after))) :
    Agree (Conforms .element (.table (before ++ (Shape.tagName, t) :: after)))
      (readElementWithin format (depth + 1) buffered n) (readElementWithin format' (depth + 1) buffered' n') := by
  have single := List.forall_mem_append.mpr ⟨hbefore, hafter⟩
  have hplain : IsPlain (.word Shape.tags) t := hp.tag (List.mem_append_right _ List.mem_cons_self) rfl
  cases hn with
  | table span all =>
    cases hn' with
    | table span' all' =>
      obtain ⟨first, key, value, last, rfl, hvalue, hfirst, hlast⟩ := all.split
      obtain ⟨first', key', value', last', rfl, hvalue', hfirst', hlast'⟩ := all'.split
      have htag := readTag_alike ⟨format, buffered⟩ ⟨format', buffered'⟩ value value' t (Nat.le_refl _) hvalue hvalue'
        hplain
      rcases htag.both with ⟨-, kind, hx, hy⟩ | ⟨hword, f, g, hx, hy⟩
      · obtain ⟨rfl, hkind⟩ := readVariant_elementTags hvalue hplain hx
        rw [readElementWithin_of_takeTag (takeTag_single ((hfirst.append hlast).isField single) rfl hx),
          readElementWithin_of_takeTag (takeTag_single ((hfirst'.append hlast').isField single) rfl hy)]
        have hle := Nat.le_trans (height_without span first last ⟨⟨Shape.tagName, key⟩, value⟩) hd
        refine (readWhole_alike ih _ _ hkind _ _ _ hle (.table span (hfirst.append hlast))
          (.table span' (hfirst'.append hlast')) (hp.element hkind single)).congr ⟨.element hkind, fun hc => ?_⟩
        obtain ⟨kind', hw, -, hfields⟩ := (conforms_element_iff hbefore).mp hc
        rwa [Kind.word_injective (Tree.text.inj hw)]
      · rw [readElementWithin, readElementWithin, takeTag_append (hfirst.isField hbefore),
          takeTag_append (hfirst'.isField hbefore), takeTag_tag rfl, takeTag_tag rfl, hx, hy]
        refine .error (fun hc => hword ?_) _ _
        obtain ⟨kind, rfl, hkind, -⟩ := (conforms_element_iff hbefore).mp hc
        exact .word (Kind.word_mem_tags hkind)

/-- An element with two tags is a fault, whatever the tags are. -/
theorem readTwoTags_alike (buffered buffered' : Bool) (hbefore : ∀ p ∈ before, p.1 ≠ Shape.tagName)
    (hafter : ¬ ∀ p ∈ after, p.1 ≠ Shape.tagName) {n n' : Node}
    (hn : n.Holds (.table (before ++ (Shape.tagName, t) :: after)))
    (hn' : n'.Holds (.table (before ++ (Shape.tagName, t) :: after))) :
    Agree (Conforms .element (.table (before ++ (Shape.tagName, t) :: after)))
      (readElementWithin format (depth + 1) buffered n) (readElementWithin format' (depth + 1) buffered' n') := by
  cases hn with
  | table span all =>
    cases hn' with
    | table span' all' =>
      obtain ⟨first, key, value, last, rfl, -, hfirst, hlast⟩ := all.split
      obtain ⟨first', key', value', last', rfl, -, hfirst', hlast'⟩ := all'.split
      obtain ⟨f, hx⟩ := takeTag_second ⟨format, buffered⟩ value hfirst hlast hbefore hafter key
      obtain ⟨g, hy⟩ := takeTag_second ⟨format', buffered'⟩ value' hfirst' hlast' hbefore hafter key'
      rw [readElementWithin, readElementWithin, hx, hy]
      refine .error (fun hc => hafter fun p hp => ?_) _ _
      obtain ⟨kind, -, hkind, hfields⟩ := (conforms_element_iff hbefore).mp hc
      exact hfields.untagged hkind p (List.mem_append_right _ hp)

end Tagged

theorem readElementWithin_alike (depth : Nat) (format format' : Format) (buffered buffered' : Bool) :
    ReadAlike depth .element (readElementWithin format depth buffered)
      (readElementWithin format' depth buffered') := by
  induction depth generalizing buffered buffered' with
  | zero =>
    intro n n' t hd
    exact absurd n.height_pos (Nat.not_lt.mpr hd)
  | succ depth ih =>
    intro n n' t hd hn hn' hp
    -- Only a table can be an element here, and it has no tag, one tag or a second one.
    cases t with
    | table pairs =>
      rcases untagged_or_first_tag pairs with hnone | ⟨before, t, after, rfl, hbefore⟩
      · cases hn with
        | table span all =>
          cases hn' with
          | table span' all' =>
            rw [readElementWithin, readElementWithin, takeTag_untagged (all.isField hnone),
              takeTag_untagged (all'.isField hnone)]
            exact .error (not_conforms_untagged hnone) _ _
      · by_cases hafter : ∀ p ∈ after, p.1 ≠ Shape.tagName
        · exact readSingleTag_alike buffered buffered' (ih true true) hbefore hafter hd hn hn' hp
        · exact readTwoTags_alike buffered buffered' hbefore hafter hn hn'
    | array items => exact absurd (.element items) (hp _ _ (.here _ _))
    | _ =>
      cases hn
      cases hn'
      exact .error (fun h => by cases h) _ _

theorem readElement_alike (mode mode' : Mode) :
    ReadAlike depth .element (readElement mode) (readElement mode') := by
  intro n n' t _ hn hn' hp
  rw [readElement, readElement, hn.height_eq hn']
  exact readElementWithin_alike _ _ _ _ _ n n' t (Nat.le_of_eq (hn.height_eq hn')) hn hn' hp

/-! ## Documents -/

theorem readOutput_alike (mode mode' : Mode) :
    ReadAlike (depth + 1) (.record .output) (outputRecord.read mode) (outputRecord.read mode') := by
  refine Record.read_alike ?_ (by rfl) mode mode'
  exact .cons (optional "path" (readOptional_alike readPath_alike)) <|
    .cons (optional "indent" readByte_alike) <|
    .cons (optional "tabs" readBool_alike) <|
    .cons (optional "banner" readResult_alike) .nil

theorem readService_alike (mode mode' : Mode) :
    ReadAlike depth (.record .service) (readService mode) (readService mode') := by
  have entityType : ReadAlike (depth + 1) (.record .entityType) (entityTypeRecord.read mode)
      (entityTypeRecord.read mode') := by
    refine Record.read_alike ?_ (by rfl) mode mode'
    exact .cons (needed "name" readText_alike) <| .cons (optional "keys" (readList_alike readText_alike)) <|
      .cons (optional "properties" readFields_alike) .nil
  have entitySet : ReadAlike (depth + 1) (.record .entitySet) (entitySetRecord.read mode)
      (entitySetRecord.read mode') := by
    refine Record.read_alike ?_ (by rfl) mode mode'
    exact .cons (needed "name" readText_alike) <| .cons (needed "entityType" readText_alike) .nil
  have enumType : ReadAlike (depth + 1) (.record .enumType) (enumTypeRecord.read mode)
      (enumTypeRecord.read mode') := by
    refine Record.read_alike ?_ (by rfl) mode mode'
    exact .cons (needed "name" readText_alike) <| .cons (optional "members" readMembers_alike) .nil
  have operation : ReadAlike (depth + 1) (.record .operation) (operationRecord.read mode)
      (operationRecord.read mode') := by
    refine Record.read_alike ?_ (by rfl) mode mode'
    exact .cons (needed "name" readText_alike) <| .cons (optional "parameters" readFields_alike) <|
      .cons (optional "returnType" readResult_alike) .nil
  have service : ReadAlike (depth + 1) (.record .service) (readService mode) (readService mode') := by
    refine Record.read_alike ?_ (by rfl) mode mode'
    exact .cons (needed "name" readText_alike) <|
      .cons (optional "entityTypes" (readList_alike (entityType.mono (Nat.le_succ depth)))) <|
      .cons (optional "entitySets" (readList_alike (entitySet.mono (Nat.le_succ depth)))) <|
      .cons (optional "enumTypes" (readList_alike (enumType.mono (Nat.le_succ depth)))) <|
      .cons (optional "actions" (readList_alike (operation.mono (Nat.le_succ depth)))) <|
      .cons (optional "functions" (readList_alike (operation.mono (Nat.le_succ depth)))) .nil
  exact service.mono (Nat.le_succ depth)

/-- In both forms a plain tree is read as the same document, or not at all. -/
theorem readDocument_alike (format format' : Format) :
    ReadAlike depth (.record .document) (readDocument format) (readDocument format') := by
  have document : ReadAlike (depth + 1) (.record .document) (readDocument format) (readDocument format') := by
    refine Record.read_alike ?_ (by rfl) ⟨format, false⟩ ⟨format', false⟩
    exact .cons (optional "output" ((readOutput_alike _ _).mono (Nat.le_succ depth))) <|
      .cons (optional "service" (readOptional_alike (readService_alike _ _))) <|
      .cons (optional "elements" (readList_alike (readElement_alike _ _))) .nil
  exact document.mono (Nat.le_succ depth)

/-- A plain tree is read as a document exactly when it conforms to the schema: in every table of fixed shape only
known keys stand, none twice, and all that must be there, and every value has its shape. -/
theorem readDocument_conforms (format : Format) {n : Node} {t : Tree} (hn : n.Holds t)
    (hp : IsPlain (.record .document) t) :
    (∃ d, readDocument format n = .ok d) ↔ Conforms (.record .document) t :=
  (readDocument_alike format format n n t (Nat.le_refl _) hn hn hp).ok_iff

/-- A loop with a tag after its body conforms, and a document of it is read. -/
theorem readDocument_conforms_loop :
    let n := Node.table ⟨0, 45⟩ [⟨⟨"elements", ⟨1, 11⟩⟩, .array ⟨12, 44⟩ [.table ⟨13, 43⟩
      [⟨⟨"body", ⟨14, 20⟩⟩, .array ⟨21, 29⟩ [.text ⟨22, 28⟩ "go()"] true⟩,
       ⟨⟨"type", ⟨30, 36⟩⟩, .text ⟨37, 42⟩ "for"⟩] true] true⟩] true
    let t := Tree.table [("elements", .array [.table [("body", .array [.text "go()"]), ("type", .text "for")]])]
    n.Holds t ∧ IsPlain (.record .document) t ∧ ∃ d, readDocument .json n = .ok d := by
  intro n t
  have hn : n.Holds t := .table _ (.cons _ _ (.array _ (.cons (.table _ (.cons _ _
    (.array _ (.cons (.text _ _) .nil)) (.cons _ _ (.text _ _) .nil))) .nil)) .nil)
  have hbody : Conforms .body (.array [.text "go()"]) :=
    .list (List.forall_mem_singleton.mpr (.textOrText _ _))
  have hloop : Conforms (.record (.part .forLoop)) (.table [("body", .array [.text "go()"])]) :=
    conforms_record_iff.mpr ⟨(fillable_cons (.optional "body" .body) (by decide) (by decide)).mpr
      ⟨by decide, hbody, by simp, .nil⟩, by decide⟩
  have helement : Conforms .element (.table [("body", .array [.text "go()"]), ("type", .text "for")]) :=
    @Conforms.element .forLoop [_] [] rfl hloop
  have ht : Conforms (.record .document) t :=
    conforms_record_iff.mpr ⟨(fillable_cons (.optional "elements" (.list .element)) (by decide)
      (by decide)).mpr ⟨by decide, .list (List.forall_mem_singleton.mpr helement), by simp, .nil⟩, by decide⟩
  exact ⟨hn, ht.isPlain, (readDocument_conforms .json hn ht.isPlain).mpr ht⟩

end TypeScribe
